import Zeroshot.Github.Permission

set_option autoImplicit false

/-!
# Merge methods that every rule allows

`classify` returns a method other than the queue only from pages that name the review, agree, and
hold every rule exactly once, and only one that the settings, the linear-history protection and all
of these rules allow. Whether it returns a method, and which, does not depend on the order of the
rules.

* **`merge_permitted`**: what a submitted merge and its method say about the answers of the forge.
-/

namespace Zeroshot.Github.MergePolicy

open Delivery (SourceReviewReceipt)

/-! ## What a page allows -/

/-- The rules of a page. -/
def Repository.ruleNodes (page : Repository) : List Rule :=
  (page.pullRequest.baseRef.rules.map Rules.nodes).getD []

/-- Whether the settings of the repository allow a method. -/
def Repository.settingsAllow (repository : Repository) : MergeMethod → Bool
  | .queue => true
  | .merge => repository.mergeCommitAllowed
  | .squash => repository.squashMergeAllowed
  | .rebase => repository.rebaseMergeAllowed

/-- Whether a rule allows a method. -/
def Restriction.allows : Restriction → MergeMethod → Bool
  | _, .queue => true
  | .requiredLinearHistory, method => method ≠ .merge
  | .pullRequest (some methods), .merge => methods.contains "MERGE"
  | .pullRequest (some methods), .squash => methods.contains "SQUASH"
  | .pullRequest (some methods), .rebase => methods.contains "REBASE"
  | .pullRequest none, _ => true
  | .other, _ => true

/-- Whether a method is still allowed. -/
def Allowed.allows (allowed : Allowed) : MergeMethod → Bool
  | .queue => true
  | .merge => allowed.merge
  | .squash => allowed.squash
  | .rebase => allowed.rebase

theorem Allowed.ext_allows {a b : Allowed} (h : ∀ method, a.allows method = b.allows method) :
    a = b := by
  obtain ⟨merge, squash, rebase⟩ := a
  obtain ⟨merge', squash', rebase'⟩ := b
  obtain rfl : merge = merge' := h .merge
  obtain rfl : squash = squash' := h .squash
  obtain rfl : rebase = rebase' := h .rebase
  rfl

theorem allows_applyRestriction (restriction : Restriction) (allowed : Allowed)
    (method : MergeMethod) :
    (applyRestriction restriction allowed).allows method =
      (allowed.allows method && restriction.allows method) := by
  cases restriction with
  | requiredLinearHistory => cases method <;> simp [applyRestriction, Allowed.allows,
      Restriction.allows]
  | pullRequest methods =>
    cases methods with
    | none => cases method <;> simp [applyRestriction, Allowed.allows, Restriction.allows]
    | some methods => cases method <;> simp [applyRestriction, Allowed.allows, Restriction.allows]
  | other => cases method <;> simp [applyRestriction, Allowed.allows, Restriction.allows]

theorem method_allows {allowed : Allowed} {method : MergeMethod}
    (h : allowed.method = some method) : allowed.allows method = true := by
  unfold Allowed.method at h
  by_cases hmerge : allowed.merge = true
  · rw [if_pos hmerge] at h
    cases h
    exact hmerge
  · rw [if_neg hmerge] at h
    by_cases hsquash : allowed.squash = true
    · rw [if_pos hsquash] at h
      cases h
      exact hsquash
    · rw [if_neg hsquash] at h
      by_cases hrebase : allowed.rebase = true
      · rw [if_pos hrebase] at h
        cases h
        exact hrebase
      · rw [if_neg hrebase] at h
        cases h

/-! ## The rules of all pages -/

/-- The rules of a list are new and apart. -/
structure NewRules (nodes : List Rule) (ruleIds : OrdSet String) : Prop where
  named : ∀ rule ∈ nodes, rule.id ≠ ""
  new : ∀ rule ∈ nodes, rule.id ∉ ruleIds
  distinct : (nodes.map Rule.id).Nodup

theorem NewRules.perm {nodes nodes' : List Rule} {ruleIds : OrdSet String}
    (h : nodes.Perm nodes') (hnew : NewRules nodes ruleIds) : NewRules nodes' ruleIds where
  named rule hin := hnew.named rule (h.mem_iff.mpr hin)
  new rule hin := hnew.new rule (h.mem_iff.mpr hin)
  distinct := (h.map Rule.id).nodup_iff.mp hnew.distinct

theorem newRules_cons_iff {rule : Rule} {nodes : List Rule} {ruleIds : OrdSet String} :
    NewRules (rule :: nodes) ruleIds ↔
      (rule.id ≠ "" ∧ rule.id ∉ ruleIds) ∧ NewRules nodes (ruleIds.insert rule.id) := by
  constructor
  · rintro ⟨hnamed, hnew, hdistinct⟩
    rw [List.map_cons, List.nodup_cons] at hdistinct
    refine ⟨⟨hnamed rule List.mem_cons_self, hnew rule List.mem_cons_self⟩,
      fun other hin => hnamed other (List.mem_cons_of_mem _ hin), fun other hin hseen => ?_,
      hdistinct.2⟩
    rcases OrdSet.mem_insert.mp hseen with hsame | hold
    · exact hdistinct.1 (hsame ▸ List.mem_map_of_mem hin)
    · exact hnew other (List.mem_cons_of_mem _ hin) hold
  · rintro ⟨⟨hnamed, hnew⟩, hrest⟩
    refine ⟨List.forall_mem_cons.mpr ⟨hnamed, hrest.named⟩, List.forall_mem_cons.mpr ⟨hnew, ?_⟩, ?_⟩
    · exact fun other hin hold => hrest.new other hin (OrdSet.mem_insert.mpr (.inr hold))
    · rw [List.map_cons, List.nodup_cons]
      refine ⟨fun hin => ?_, hrest.distinct⟩
      obtain ⟨other, hother, hsame⟩ := List.mem_map.mp hin
      exact hrest.new other hother (OrdSet.mem_insert.mpr (.inl hsame))

theorem length_insert {s : OrdSet String} {k : String} (h : k ∉ s) :
    (s.insert k).length = s.length + 1 := by
  induction s with
  | nil => rfl
  | cons x s ih =>
    rw [List.mem_cons, not_or] at h
    rw [OrdSet.insert]
    cases hcompare : compare k x with
    | lt => rfl
    | eq => exact absurd (Std.LawfulEqOrd.eq_of_compare hcompare) h.1
    | gt =>
      change (x :: OrdSet.insert k s).length = _
      rw [List.length_cons, ih h.2, List.length_cons]

/-- Rules are applied when they are new and apart. -/
theorem applyNodes_iff {nodes : List Rule} {applied after : Applied} :
    applyNodes nodes applied = .ok after ↔ NewRules nodes applied.ruleIds ∧
      after = ⟨nodes.foldl (fun ruleIds rule => ruleIds.insert rule.id) applied.ruleIds,
        nodes.foldl (fun allowed rule => applyRestriction rule.restriction allowed)
          applied.allowed⟩ := by
  induction nodes generalizing applied with
  | nil =>
    rw [applyNodes, Except.ok.injEq, eq_comm]
    refine (and_iff_right ⟨?_, ?_, List.nodup_nil⟩).symm
    · exact fun rule hin => absurd hin List.not_mem_nil
    · exact fun rule hin => absurd hin List.not_mem_nil
  | cons rule nodes ih =>
    rw [applyNodes, newRules_cons_iff]
    by_cases hrepeated : rule.id = "" ∨ applied.ruleIds.contains rule.id = true
    · rw [if_pos hrepeated]
      refine iff_of_false (fun h => by cases h) fun h => ?_
      rw [OrdSet.contains_iff_mem] at hrepeated
      exact hrepeated.elim h.1.1.1 h.1.1.2
    · rw [if_neg hrepeated, ih]
      rw [OrdSet.contains_iff_mem, not_or] at hrepeated
      rw [and_iff_right hrepeated]
      rfl

theorem length_ruleIds {nodes : List Rule} {ruleIds : OrdSet String} (h : NewRules nodes ruleIds) :
    (nodes.foldl (fun ruleIds rule => OrdSet.insert rule.id ruleIds) ruleIds).length =
      ruleIds.length + nodes.length := by
  induction nodes generalizing ruleIds with
  | nil => rfl
  | cons rule nodes ih =>
    obtain ⟨⟨-, hnew⟩, hrest⟩ := newRules_cons_iff.mp h
    rw [List.foldl_cons, ih hrest, length_insert hnew, List.length_cons]
    omega

theorem allows_foldl {nodes : List Rule} {allowed : Allowed} (method : MergeMethod) :
    (nodes.foldl (fun allowed rule => applyRestriction rule.restriction allowed)
      allowed).allows method =
        (allowed.allows method && nodes.all fun rule => rule.restriction.allows method) := by
  induction nodes generalizing allowed with
  | nil => rw [List.foldl_nil, List.all_nil, Bool.and_true]
  | cons rule nodes ih =>
    rw [List.foldl_cons, ih, allows_applyRestriction, List.all_cons, Bool.and_assoc]

/-! ## The pagination of the rules -/

/-- The loop of `apply_rules` without the rules. -/
def checkPages (expectedCount : Nat) :
    List Repository → OrdSet String → Except SourceDeliveryError Unit
  | [], _ => .ok ()
  | page :: pages, cursors => do
    let rules ← rules page
    if rules.totalCount ≠ expectedCount then
      .error (invalid "branch rules changed during pagination").temporary
    else do
      let cursors ← validatePage rules (!pages.isEmpty) cursors
      checkPages expectedCount pages cursors

theorem ruleNodes_of_rules {page : Repository} {found : Rules} (h : rules page = .ok found) :
    page.ruleNodes = found.nodes := by
  unfold rules at h
  unfold Repository.ruleNodes
  cases hrules : page.pullRequest.baseRef.rules with
  | none =>
    rw [hrules] at h
    cases h
  | some held =>
    rw [hrules] at h
    cases h
    rfl

theorem applyNodes_append {nodes nodes' : List Rule} {applied after : Applied} :
    applyNodes (nodes ++ nodes') applied = .ok after ↔
      ∃ middle, applyNodes nodes applied = .ok middle ∧ applyNodes nodes' middle = .ok after := by
  induction nodes generalizing applied with
  | nil => simp [applyNodes]
  | cons rule nodes ih =>
    rw [List.cons_append, applyNodes, applyNodes]
    by_cases hrepeated : rule.id = "" ∨ applied.ruleIds.contains rule.id = true
    · simp only [if_pos hrepeated]
      refine iff_of_false (fun h => by cases h) fun ⟨_, h, _⟩ => by cases h
    · simp only [if_neg hrepeated]
      exact ih

/-- The pages are checked on their own, and their rules are applied in one go. -/
theorem applyPages_iff {expectedCount : Nat} {pages : List Repository} {cursors : OrdSet String}
    {applied after : Applied} :
    applyPages expectedCount pages cursors applied = .ok after ↔
      checkPages expectedCount pages cursors = .ok () ∧
        applyNodes (pages.flatMap Repository.ruleNodes) applied = .ok after := by
  induction pages generalizing cursors applied with
  | nil => exact (and_iff_right rfl).symm
  | cons page pages ih =>
    rw [applyPages, checkPages]
    cases hrules : rules page with
    | error error => exact iff_of_false (fun h => by cases h) fun h => by cases h.1
    | ok found =>
      change (if found.totalCount ≠ expectedCount then _ else _) = _ ↔
        (if found.totalCount ≠ expectedCount then _ else _) = _ ∧ _
      by_cases hcount : found.totalCount ≠ expectedCount
      · rw [if_pos hcount, if_pos hcount]
        exact iff_of_false (fun h => by cases h) fun h => by cases h.1
      · rw [if_neg hcount, if_neg hcount]
        cases hpage : validatePage found (!pages.isEmpty) cursors with
        | error error => exact iff_of_false (fun h => by cases h) fun h => by cases h.1
        | ok cursors' =>
          change (applyNodes found.nodes applied >>= fun applied =>
              applyPages expectedCount pages cursors' applied) = _ ↔
            checkPages expectedCount pages cursors' = _ ∧ _
          rw [except_bind_eq_ok, List.flatMap_cons, ruleNodes_of_rules hrules, applyNodes_append]
          constructor
          · rintro ⟨middle, hnodes, hpages⟩
            obtain ⟨hcheck, hrest⟩ := ih.mp hpages
            exact ⟨hcheck, middle, hnodes, hrest⟩
          · rintro ⟨hcheck, middle, hnodes, hrest⟩
            exact ⟨middle, hnodes, ih.mpr ⟨hcheck, hrest⟩⟩

theorem checkPages_count {expectedCount : Nat} {pages : List Repository} {cursors : OrdSet String}
    (h : checkPages expectedCount pages cursors = .ok ()) :
    ∀ page ∈ pages, page.pullRequest.baseRef.rules.map Rules.totalCount = some expectedCount := by
  induction pages generalizing cursors with
  | nil => exact fun page hin => absurd hin List.not_mem_nil
  | cons page pages ih =>
    obtain ⟨found, hrules, h⟩ := except_bind_eq_ok.mp h
    by_cases hcount : found.totalCount ≠ expectedCount
    · rw [if_pos hcount] at h
      cases h
    · rw [if_neg hcount] at h
      obtain ⟨cursors', -, h⟩ := except_bind_eq_ok.mp h
      refine List.forall_mem_cons.mpr ⟨?_, ih h⟩
      unfold rules at hrules
      cases hheld : page.pullRequest.baseRef.rules with
      | none =>
        rw [hheld] at hrules
        cases hrules
      | some held =>
        rw [hheld] at hrules
        cases hrules
        exact congrArg some (not_not.mp hcount)

/-- What `apply_rules` allows, and when it does. -/
theorem applyRules_iff {pages : List Repository} {expectedCount : Nat} {allowed after : Allowed} :
    applyRules pages expectedCount allowed = .ok after ↔
      checkPages expectedCount pages [] = .ok () ∧
        NewRules (pages.flatMap Repository.ruleNodes) [] ∧
        (pages.flatMap Repository.ruleNodes).length = expectedCount ∧
        ∀ method, after.allows method = (allowed.allows method &&
          (pages.flatMap Repository.ruleNodes).all fun rule => rule.restriction.allows method) := by
  unfold applyRules
  rw [except_bind_eq_ok]
  constructor
  · rintro ⟨applied, happlied, h⟩
    obtain ⟨hcheck, hnodes⟩ := applyPages_iff.mp happlied
    obtain ⟨hnew, rfl⟩ := applyNodes_iff.mp hnodes
    rw [length_ruleIds hnew, List.length_nil, Nat.zero_add] at h
    by_cases hcount : (pages.flatMap Repository.ruleNodes).length ≠ expectedCount
    · rw [if_pos hcount] at h
      cases h
    · rw [if_neg hcount] at h
      cases h
      exact ⟨hcheck, hnew, not_not.mp hcount, allows_foldl⟩
  · rintro ⟨hcheck, hnew, hcount, hallows⟩
    refine ⟨_, applyPages_iff.mpr ⟨hcheck, applyNodes_iff.mpr ⟨hnew, rfl⟩⟩, ?_⟩
    rw [length_ruleIds hnew, List.length_nil, Nat.zero_add, if_neg (not_not.mpr hcount)]
    exact congrArg Except.ok (Allowed.ext_allows fun method =>
      (allows_foldl method).trans (hallows method).symm)

/-! ## The method -/

/-- A page names exactly the review. -/
structure Repository.Names (page : Repository) (review : SourceReviewReceipt) : Prop where
  repository : page.nameWithOwner = review.repository
  number : toString page.pullRequest.number = review.reviewId
  target : page.pullRequest.baseRefName = review.targetBranch
  base : page.pullRequest.baseRef.name = review.targetBranch
  branch : page.pullRequest.headRefName = review.headBranch
  revision : page.pullRequest.headRefOid = review.headRevision

theorem requireIdentity_names {page : Repository} {review : SourceReviewReceipt}
    (h : requireIdentity page review = .ok ()) : page.Names review := by
  unfold requireIdentity at h
  by_cases hwrong : page.nameWithOwner ≠ review.repository ∨
      toString page.pullRequest.number ≠ review.reviewId ∨
      page.pullRequest.baseRefName ≠ review.targetBranch ∨
      page.pullRequest.baseRef.name ≠ review.targetBranch ∨
      page.pullRequest.headRefName ≠ review.headBranch ∨
      page.pullRequest.headRefOid ≠ review.headRevision ∨ page.pullRequest.id = ""
  · rw [if_pos hwrong] at h
    cases h
  · simp only [not_or, not_not] at hwrong
    obtain ⟨hrepository, hnumber, htarget, hbase, hbranch, hrevision, -⟩ := hwrong
    exact ⟨hrepository, hnumber, htarget, hbase, hbranch, hrevision⟩

theorem validatePages_ok {review : SourceReviewReceipt} {first : Repository}
    {pages : List Repository} (h : validatePages review first pages = .ok ()) :
    ∀ page ∈ pages, page.Names review ∧ samePolicy first page = true := by
  induction pages with
  | nil => exact fun page hin => absurd hin List.not_mem_nil
  | cons page pages ih =>
    obtain ⟨_, hidentity, h⟩ := except_bind_eq_ok.mp h
    by_cases hsame : samePolicy first page = true
    · rw [if_pos hsame] at h
      exact List.forall_mem_cons.mpr ⟨⟨requireIdentity_names hidentity, hsame⟩, ih h⟩
    · rw [if_neg hsame] at h
      cases h

/-- What the pages say about a method that `classify` returns. -/
structure MethodPermitted (review : SourceReviewReceipt) (pages : List Repository)
    (method : MergeMethod) : Prop where
  names : ∀ page ∈ pages, page.Names review
  settings : ∀ page ∈ pages, page.settingsAllow method = true
  /-- A linear history has no merge commits. -/
  linear : ∀ page ∈ pages, page.pullRequest.baseRef.linear = true → method ≠ .merge
  rules : ∀ rule ∈ pages.flatMap Repository.ruleNodes, rule.restriction.allows method = true
  distinct : ((pages.flatMap Repository.ruleNodes).map Rule.id).Nodup
  total : ∀ page ∈ pages, page.pullRequest.baseRef.rules.map Rules.totalCount =
    some (pages.flatMap Repository.ruleNodes).length

theorem allows_allowed {repository : Repository} {method : MergeMethod}
    (h : repository.allowed.allows method = true) :
    repository.settingsAllow method = true ∧
      (repository.pullRequest.baseRef.linear = true → method ≠ .merge) := by
  cases method with
  | queue => exact ⟨rfl, fun _ hsame => by cases hsame⟩
  | merge =>
    rw [Allowed.allows, Repository.allowed, Bool.and_eq_true, Bool.not_eq_true'] at h
    refine ⟨h.1, fun hlinear => ?_⟩
    rw [h.2] at hlinear
    cases hlinear
  | squash => exact ⟨h, fun _ hsame => by cases hsame⟩
  | rebase => exact ⟨h, fun _ hsame => by cases hsame⟩

/-- Pages of one policy have the same settings and the same protection. -/
theorem samePolicy_settings {first page : Repository} (h : samePolicy first page = true) :
    page.settingsAllow = first.settingsAllow ∧
      page.pullRequest.baseRef.linear = first.pullRequest.baseRef.linear := by
  unfold samePolicy at h
  simp only [Bool.and_eq_true, decide_eq_true_eq] at h
  obtain ⟨⟨⟨⟨⟨⟨hmerge, hsquash⟩, hrebase⟩, -⟩, -⟩, hprotection⟩, hupdate⟩ := h
  constructor
  · funext method
    cases method with
    | queue => rfl
    | merge => exact hmerge.symm
    | squash => exact hsquash.symm
    | rebase => exact hrebase.symm
  · unfold BaseRef.linear
    rw [hprotection, hupdate]

/-- When `classify` returns a method. -/
theorem classify_iff {pages : List Repository} {review : SourceReviewReceipt}
    {method : MergeMethod} :
    classify (.ok pages) review = .ok method ↔ ∃ first,
      validateIdentityAndPolicy pages review = .ok first ∧
        ((first.pullRequest.isMergeQueueEnabled = true ∧ method = .queue) ∨
          (first.pullRequest.isMergeQueueEnabled = false ∧ ∃ found allowed,
            rules first = .ok found ∧
              applyRules pages found.totalCount first.allowed = .ok allowed ∧
              allowed.method = some method)) := by
  change (validateIdentityAndPolicy pages review >>= fun first => _) = _ ↔ _
  rw [except_bind_eq_ok]
  refine exists_congr fun first => and_congr_right fun _ => ?_
  cases hqueue : first.pullRequest.isMergeQueueEnabled with
  | true =>
    simp only [if_true, true_and, Bool.true_eq_false, false_and, or_false, Except.ok.injEq]
    exact eq_comm
  | false =>
    simp only [Bool.false_eq_true, if_false, false_and, true_and, false_or]
    rw [except_bind_eq_ok]
    refine exists_congr fun found => ?_
    rw [except_bind_eq_ok]
    constructor
    · rintro ⟨hfound, allowed, hallowed, h⟩
      refine ⟨allowed, hfound, hallowed, ?_⟩
      cases hmethod : allowed.method with
      | none =>
        rw [hmethod] at h
        cases h
      | some found =>
        rw [hmethod] at h
        cases h
        rfl
    · rintro ⟨allowed, hfound, hallowed, hmethod⟩
      refine ⟨hfound, allowed, hallowed, ?_⟩
      rw [hmethod]

theorem classify_permitted {response : Except String (List Repository)}
    {review : SourceReviewReceipt} {method : MergeMethod}
    (h : classify response review = .ok method) (hmethod : method ≠ .queue) :
    ∃ pages, response = .ok pages ∧ MethodPermitted review pages method := by
  cases response with
  | error error => cases h
  | ok pages =>
    obtain ⟨first, hfirst, ⟨-, hqueue⟩ | ⟨-, found, allowed, -, happlied, hallowed⟩⟩ :=
      classify_iff.mp h
    · exact absurd hqueue hmethod
    · obtain ⟨hcheck, hnew, hcount, hallows⟩ := applyRules_iff.mp happlied
      have hmethod := method_allows hallowed
      rw [hallows, Bool.and_eq_true, List.all_eq_true] at hmethod
      obtain ⟨hsettings, hlinear⟩ := allows_allowed hmethod.1
      have hpages : ∀ page ∈ pages, page.Names review ∧ samePolicy first page = true := by
        cases pages with
        | nil => cases hfirst
        | cons page pages =>
          obtain ⟨_, hvalid, hsame⟩ := except_bind_eq_ok.mp hfirst
          cases hsame
          exact validatePages_ok hvalid
      refine ⟨pages, rfl, ⟨fun page hin => (hpages page hin).1, fun page hin => ?_,
        fun page hin => ?_, hmethod.2, hnew.distinct, fun page hin => ?_⟩⟩
      · rw [(samePolicy_settings (hpages page hin).2).1]
        exact hsettings
      · rw [(samePolicy_settings (hpages page hin).2).2]
        exact hlinear
      · rw [hcount]
        exact checkPages_count hcheck page hin

/-! ## Reordered rules -/

/-- The page without its rules. -/
def Repository.bare (page : Repository) : Repository :=
  { page with
    pullRequest := { page.pullRequest with
      baseRef := { page.pullRequest.baseRef with
        rules := page.pullRequest.baseRef.rules.map fun rules => { rules with nodes := [] } } } }

/-- The same pages with their rules in another order, on the same or on other pages; a page that
announces another one still holds a rule if it did. -/
structure ReorderedPages (pages pages' : List Repository) : Prop where
  bare : pages.map Repository.bare = pages'.map Repository.bare
  progress : ∀ (index : Nat) (page page' : Repository), pages[index]? = some page →
    pages'[index]? = some page' → index + 1 < pages.length →
      (page.ruleNodes = [] ↔ page'.ruleNodes = [])
  rules : (pages.flatMap Repository.ruleNodes).Perm (pages'.flatMap Repository.ruleNodes)

theorem ReorderedPages.symm {pages pages' : List Repository} (h : ReorderedPages pages pages') :
    ReorderedPages pages' pages where
  bare := h.bare.symm
  progress index page page' hpage hpage' hindex := by
    have hlength := congrArg List.length h.bare
    rw [List.length_map, List.length_map] at hlength
    exact (h.progress index page' page hpage' hpage (hlength ▸ hindex)).symm
  rules := h.rules.symm

/-- The name and the policy of a page do not depend on its rules. -/
theorem validatePages_bare (review : SourceReviewReceipt) (first : Repository)
    (pages : List Repository) :
    validatePages review first pages =
      validatePages review first.bare (pages.map Repository.bare) := by
  induction pages with
  | nil => rfl
  | cons page pages ih =>
    rw [List.map_cons, validatePages, validatePages, ih]
    rfl

theorem validatePage_nodes {found found' : Rules} (htotal : found.pageInfo = found'.pageInfo)
    {hasNextPage : Bool} (hnodes : hasNextPage = true → (found.nodes = [] ↔ found'.nodes = []))
    (cursors : OrdSet String) :
    validatePage found hasNextPage cursors = validatePage found' hasNextPage cursors := by
  have hprogress : (hasNextPage && found.nodes.isEmpty) =
      (hasNextPage && found'.nodes.isEmpty) := by
    cases hasNextPage with
    | false => rfl
    | true =>
      rw [Bool.true_and, Bool.true_and, Bool.eq_iff_iff, List.isEmpty_iff, List.isEmpty_iff]
      exact hnodes rfl
  unfold validatePage
  rw [htotal, hprogress]

/-- Pages that are alike without their rules. -/
theorem rules_of_bare {page page' : Repository} (h : page.bare = page'.bare) :
    (rules page = .error (invalid "GitHub did not return the base-branch rules") ∧
        rules page' = .error (invalid "GitHub did not return the base-branch rules")) ∨
      ∃ found found', rules page = .ok found ∧ rules page' = .ok found' ∧
        found.totalCount = found'.totalCount ∧ found.pageInfo = found'.pageInfo := by
  have hrules := congrArg (fun page => page.pullRequest.baseRef.rules) h
  change (page.pullRequest.baseRef.rules.map fun rules => ({ rules with nodes := [] } : Rules)) =
    page'.pullRequest.baseRef.rules.map fun rules => ({ rules with nodes := [] } : Rules) at hrules
  unfold rules
  cases hleft : page.pullRequest.baseRef.rules with
  | none =>
    cases hright : page'.pullRequest.baseRef.rules with
    | none => exact .inl ⟨rfl, rfl⟩
    | some found' =>
      rw [hleft, hright] at hrules
      cases hrules
  | some found =>
    cases hright : page'.pullRequest.baseRef.rules with
    | none =>
      rw [hleft, hright] at hrules
      cases hrules
    | some found' =>
      rw [hleft, hright] at hrules
      have hfound := Option.some.inj hrules
      simp only [Rules.mk.injEq, and_true] at hfound
      exact .inr ⟨found, found', rfl, rfl, hfound.1, hfound.2⟩

theorem checkPages_reordered {expectedCount : Nat} {pages pages' : List Repository}
    (hbare : pages.map Repository.bare = pages'.map Repository.bare)
    (hprogress : ∀ (index : Nat) (page page' : Repository), pages[index]? = some page →
      pages'[index]? = some page' → index + 1 < pages.length →
        (page.ruleNodes = [] ↔ page'.ruleNodes = []))
    (cursors : OrdSet String) :
    checkPages expectedCount pages cursors = checkPages expectedCount pages' cursors := by
  induction pages generalizing pages' cursors with
  | nil =>
    cases pages' with
    | nil => rfl
    | cons page' pages' => cases hbare
  | cons page pages ih =>
    cases pages' with
    | nil => cases hbare
    | cons page' pages' =>
      rw [List.map_cons, List.map_cons] at hbare
      obtain ⟨hpage, hpages⟩ := List.cons.inj hbare
      have hlength : pages.length = pages'.length := by
        have hlength := congrArg List.length hpages
        rwa [List.length_map, List.length_map] at hlength
      have hempty : pages.isEmpty = pages'.isEmpty := by
        rw [Bool.eq_iff_iff, List.isEmpty_iff_length_eq_zero, List.isEmpty_iff_length_eq_zero,
          hlength]
      have hrest : ∀ cursors, checkPages expectedCount pages cursors =
          checkPages expectedCount pages' cursors := by
        refine ih hpages fun index other other' hother hother' hindex => ?_
        refine hprogress (index + 1) other other' hother hother' ?_
        rw [List.length_cons]
        omega
      rw [checkPages, checkPages, ← hempty]
      rcases rules_of_bare hpage with ⟨hnone, hnone'⟩ | ⟨found, found', hfound, hfound', hcount,
        hinfo⟩
      · rw [hnone, hnone']
        rfl
      · rw [hfound, hfound']
        change (if found.totalCount ≠ expectedCount then _ else _) =
          (if found'.totalCount ≠ expectedCount then _ else _)
        have hvalid : validatePage found (!pages.isEmpty) cursors =
            validatePage found' (!pages.isEmpty) cursors := by
          refine validatePage_nodes hinfo (fun hnext => ?_) cursors
          rw [← ruleNodes_of_rules hfound, ← ruleNodes_of_rules hfound']
          refine hprogress 0 page page' rfl rfl ?_
          rw [Bool.not_eq_true', List.isEmpty_eq_false_iff] at hnext
          have hpositive := List.length_pos_iff.mpr hnext
          rw [List.length_cons]
          omega
        rw [hcount, hvalid]
        by_cases hwrong : found'.totalCount ≠ expectedCount
        · rw [if_pos hwrong, if_pos hwrong]
        · rw [if_neg hwrong, if_neg hwrong]
          exact congrArg _ (funext hrest)

theorem applyRules_reordered {pages pages' : List Repository} (h : ReorderedPages pages pages')
    {expectedCount : Nat} {allowed after : Allowed} :
    applyRules pages expectedCount allowed = .ok after ↔
      applyRules pages' expectedCount allowed = .ok after := by
  rw [applyRules_iff, applyRules_iff, checkPages_reordered h.bare h.progress, h.rules.length_eq]
  have hnew : NewRules (pages.flatMap Repository.ruleNodes) [] ↔
      NewRules (pages'.flatMap Repository.ruleNodes) [] :=
    ⟨NewRules.perm h.rules, NewRules.perm h.rules.symm⟩
  rw [hnew]
  simp only [h.rules.all_eq]

/-- Reordered pages are validated alike, with the first page to go by. -/
theorem validateIdentityAndPolicy_reordered {pages pages' : List Repository}
    (h : pages.map Repository.bare = pages'.map Repository.bare) {review : SourceReviewReceipt}
    {first : Repository} (hfirst : validateIdentityAndPolicy pages review = .ok first) :
    ∃ first', validateIdentityAndPolicy pages' review = .ok first' ∧ first.bare = first'.bare := by
  cases pages with
  | nil => cases hfirst
  | cons page pages =>
    cases pages' with
    | nil => cases h
    | cons page' pages' =>
      obtain ⟨_, hvalid, hsame⟩ := except_bind_eq_ok.mp hfirst
      cases hsame
      have hpage : first.bare = page'.bare := (List.cons.inj h).1
      refine ⟨page', except_bind_eq_ok.mpr ⟨(), ?_, rfl⟩, hpage⟩
      rw [validatePages_bare, ← h, ← hpage, ← validatePages_bare]
      exact hvalid

/-- The method does not depend on the order of the rules. -/
theorem classify_reordered {pages pages' : List Repository} (h : ReorderedPages pages pages')
    {review : SourceReviewReceipt} {method : MergeMethod}
    (hclassify : classify (.ok pages) review = .ok method) :
    classify (.ok pages') review = .ok method := by
  obtain ⟨first, hfirst, hcase⟩ := classify_iff.mp hclassify
  obtain ⟨first', hfirst', hbare⟩ := validateIdentityAndPolicy_reordered h.bare hfirst
  have hqueue : first'.pullRequest.isMergeQueueEnabled = first.pullRequest.isMergeQueueEnabled :=
    congrArg (fun page => page.pullRequest.isMergeQueueEnabled) hbare.symm
  have hallowed : first'.allowed = first.allowed := by
    change first'.bare.allowed = first.bare.allowed
    rw [hbare]
  refine classify_iff.mpr ⟨first', hfirst', ?_⟩
  rw [hqueue, hallowed]
  refine hcase.imp id fun ⟨hunqueued, found, allowed, hfound, happlied, hmethod⟩ => ?_
  rcases rules_of_bare hbare with ⟨hnone, -⟩ | ⟨found₁, found', hfound₁, hfound', hcount, -⟩
  · rw [hnone] at hfound
    cases hfound
  · rw [hfound₁] at hfound
    cases hfound
    refine ⟨hunqueued, found', allowed, hfound', ?_, hmethod⟩
    rw [← hcount]
    exact (applyRules_reordered h).mp happlied

end Zeroshot.Github.MergePolicy

namespace Zeroshot.Github

open Delivery (SourceReviewReceipt)
open MergePolicy (MergeMethod MethodPermitted ReorderedPages classify)

/-- **Permitted merges**: a submitted merge, and a method other than the queue, say that policy
permits them, and neither depends on the order of contexts and rules. -/
theorem merge_permitted (review : SourceReviewReceipt) :
    (∀ (answers : PolicyAnswers) (queued : Bool),
      mergeVerdict answers review = .ok (.submit queued) →
        ∃ pages ruleWires, answers.policy = .ok (.ok pages) ∧
          answers.branchRules = .ok (.ok ruleWires) ∧ Permitted review pages ruleWires queued) ∧
    (∀ (response : Except String (List MergePolicy.Repository)) (method : MergeMethod),
      classify response review = .ok method → method ≠ .queue →
        ∃ pages, response = .ok pages ∧ MethodPermitted review pages method) ∧
    (∀ answers answers' : PolicyAnswers, answers.Reordered answers' →
      mergeVerdict answers review = mergeVerdict answers' review) ∧
    ∀ (pages pages' : List MergePolicy.Repository) (method : MergeMethod),
      ReorderedPages pages pages' →
        (classify (.ok pages) review = .ok method ↔ classify (.ok pages') review = .ok method) :=
  ⟨fun _ _ => mergeVerdict_submit, fun _ _ => MergePolicy.classify_permitted,
    fun _ _ h => mergeVerdict_reordered h review, fun _ _ _ h =>
      ⟨MergePolicy.classify_reordered h, MergePolicy.classify_reordered h.symm⟩⟩

namespace Sample

def review : SourceReviewReceipt where
  reviewId := "7"
  repository := "acme/project"
  targetBranch := "main"
  headBranch := "fix"
  headRevision := "b"

/-- An update rule that requires a context without a name. -/
def updateRule : RefUpdateRuleWire := ⟨0, some [some ""], false, false, false, false⟩

/-- A pull request behind its base branch, which has a merge queue. -/
def behind : PullRequestPolicyWire where
  id := "p"
  number := 7
  state := "OPEN"
  merged := false
  mergeCommit := none
  mergeable := "UNKNOWN"
  mergeStateStatus := "BEHIND"
  reviewDecision := none
  isDraft := false
  isInMergeQueue := false
  isMergeQueueEnabled := true
  autoMergeRequest := none
  baseRefName := "main"
  baseRef := ⟨"main", some updateRule⟩
  headRefName := "fix"
  headRefOid := "b"
  commits := [⟨none⟩]

def behindPages : List QueryPageWire := [⟨some ⟨"acme/project", some behind⟩⟩]

def behindAnswers : PolicyAnswers := ⟨.ok (.ok behindPages), .ok (.ok [[]])⟩

/-- A page of the merge policy with the given rules. -/
def rulesPage (pageInfo : MergePolicy.PageInfo) (nodes : List MergePolicy.Rule) :
    MergePolicy.Repository :=
  ⟨"acme/project", true, true, true,
    ⟨"p", 7, "main", "fix", "b", false, ⟨"main", none, none, some ⟨2, pageInfo, nodes⟩⟩⟩⟩

def rulesPages (first second : List MergePolicy.Rule) : List MergePolicy.Repository :=
  [rulesPage ⟨true, some "c"⟩ first, rulesPage ⟨false, none⟩ second]

def ruleA : MergePolicy.Rule := ⟨"a", .other⟩

def ruleB : MergePolicy.Rule := ⟨"b", .other⟩

end Sample

open Sample in
/-- A pull request behind its base branch is submitted to a merge queue, an empty name of a required
context is never observed, and a method is lost when its rules leave the first page. -/
theorem merge_permitted_limits :
    (mergeVerdict behindAnswers review = .ok (.submit true) ∧
      behind.mergeStateStatus = "BEHIND" ∧
      behind.baseRef.refUpdateRule.bind RefUpdateRuleWire.requiredStatusCheckContexts =
        some [some ""] ∧
      behindPages.flatMap QueryPageWire.contexts = []) ∧
    classify (.ok (rulesPages [ruleA] [ruleB])) review = .ok .merge ∧
    classify (.ok (rulesPages [] [ruleA, ruleB])) review ≠ .ok .merge := by
  refine ⟨⟨by decide +kernel, rfl, rfl, rfl⟩, by decide +kernel, by decide +kernel⟩

end Zeroshot.Github
