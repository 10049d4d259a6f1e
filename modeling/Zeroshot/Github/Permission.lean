import Zeroshot.Github.MergePolicy

set_option autoImplicit false

/-!
# Merges are submitted only when policy permits

What a submitted merge says about the answers of the forge: the pages name the review and agree,
their pagination is complete, every required check was observed and has passed, and the method is
one that every rule allows. The order of contexts and rules does not matter.
-/

namespace Zeroshot.Github

open Delivery (SourceReviewReceipt validBranch validRevision)

/-! ## Required checks -/

section

variable {contexts contexts' : List CheckContextWire} {evidence : RequiredCheckEvidence}

/-- Every required check satisfies a condition on its outcome. -/
def RequiredAll (p : RequiredCheckOutcome → Prop) (contexts : List CheckContextWire) : Prop :=
  ∀ context ∈ contexts, context.isRequired = true → p (checkOutcome context)

theorem RequiredAll.cons_iff {p : RequiredCheckOutcome → Prop} {context : CheckContextWire} :
    RequiredAll p (context :: contexts) ↔
      (context.isRequired = true → p (checkOutcome context)) ∧ RequiredAll p contexts :=
  List.forall_mem_cons

theorem RequiredAll.perm {p : RequiredCheckOutcome → Prop} (h : contexts.Perm contexts') :
    RequiredAll p contexts ↔ RequiredAll p contexts' :=
  ⟨fun hall context hin => hall context (h.mem_iff.mpr hin),
    fun hall context hin => hall context (h.mem_iff.mp hin)⟩

/-- The outcome of a check that has not failed. -/
def RequiredCheckOutcome.unfailed : RequiredCheckOutcome → Prop
  | .failed _ _ => False
  | _ => True

/-- The evidence of contexts has no failure when no required check has failed. -/
theorem foldl_add_failures :
    (contexts.foldl RequiredCheckEvidence.add evidence).failures = [] ↔
      evidence.failures = [] ∧ RequiredAll RequiredCheckOutcome.unfailed contexts := by
  induction contexts generalizing evidence with
  | nil => simp [RequiredAll]
  | cons context contexts ih =>
    rw [List.foldl_cons, ih, RequiredAll.cons_iff, ← and_assoc]
    refine and_congr_left fun _ => ?_
    unfold RequiredCheckEvidence.add requiredCheckOutcome
    by_cases hrequired : context.isRequired = true
    · simp only [hrequired, if_true, true_implies]
      cases checkOutcome context with
      | passed =>
        by_cases habsent : evidence.checks = .absent
        · simp [habsent, RequiredCheckOutcome.unfailed]
        · simp [habsent, RequiredCheckOutcome.unfailed]
      | pending => simp [RequiredCheckOutcome.unfailed]
      | failed diagnostic jobId => simp [RequiredCheckOutcome.unfailed]
    · simp [hrequired]

/-- The evidence is pending when a required check is. -/
theorem foldl_add_pending :
    (contexts.foldl RequiredCheckEvidence.add evidence).checks ≠ .pending ↔
      evidence.checks ≠ .pending ∧ RequiredAll (· ≠ .pending) contexts := by
  induction contexts generalizing evidence with
  | nil => simp [RequiredAll]
  | cons context contexts ih =>
    rw [List.foldl_cons, ih, RequiredAll.cons_iff, ← and_assoc]
    refine and_congr_left fun _ => ?_
    unfold RequiredCheckEvidence.add requiredCheckOutcome
    by_cases hrequired : context.isRequired = true
    · simp only [hrequired, if_true, true_implies]
      cases checkOutcome context with
      | passed =>
        by_cases habsent : evidence.checks = .absent
        · simp [habsent]
        · simp [habsent]
      | pending => simp
      | failed diagnostic jobId => simp
    · simp [hrequired]

/-- The evidence is absent when no required check has passed or is pending. -/
theorem foldl_add_absent :
    (contexts.foldl RequiredCheckEvidence.add evidence).checks = .absent ↔
      evidence.checks = .absent ∧
        RequiredAll (fun outcome => outcome ≠ .pending ∧ outcome ≠ .passed) contexts := by
  induction contexts generalizing evidence with
  | nil => simp [RequiredAll]
  | cons context contexts ih =>
    rw [List.foldl_cons, ih, RequiredAll.cons_iff, ← and_assoc]
    refine and_congr_left fun _ => ?_
    unfold RequiredCheckEvidence.add requiredCheckOutcome
    by_cases hrequired : context.isRequired = true
    · simp only [hrequired, if_true, true_implies]
      cases checkOutcome context with
      | passed =>
        by_cases habsent : evidence.checks = .absent
        · simp [habsent]
        · simp [habsent]
      | pending => simp
      | failed diagnostic jobId => simp
    · simp [hrequired]

theorem appendSupportingFailures_checks :
    (appendSupportingFailures contexts evidence).checks = evidence.checks := by
  unfold appendSupportingFailures
  induction contexts generalizing evidence with
  | nil => rfl
  | cons context contexts ih =>
    rw [List.foldl_cons, ih]
    by_cases hrequired : context.isRequired = true
    · rw [if_pos hrequired]
    · rw [if_neg hrequired]
      cases checkOutcome context <;> rfl

/-- Supporting failures are added after the failures of required checks. -/
theorem appendSupportingFailures_failures (h : evidence.failures ≠ []) :
    (appendSupportingFailures contexts evidence).failures ≠ [] := by
  unfold appendSupportingFailures
  induction contexts generalizing evidence with
  | nil => exact h
  | cons context contexts ih =>
    rw [List.foldl_cons]
    refine ih ?_
    by_cases hrequired : context.isRequired = true
    · rw [if_pos hrequired]
      exact h
    · rw [if_neg hrequired]
      cases checkOutcome context with
      | passed => exact h
      | pending => exact h
      | failed diagnostic jobId => simp

theorem limitFailedJobs_checks : (limitFailedJobs evidence).checks = evidence.checks := by
  unfold limitFailedJobs
  by_cases hlimit : maxFailedCheckLogs < evidence.failedJobIds.eraseDups.length
  · simp only [if_pos hlimit]
  · simp only [if_neg hlimit]

theorem classifyRequiredChecks_checks :
    (classifyRequiredChecks contexts).checks =
      (contexts.foldl RequiredCheckEvidence.add ⟨.absent, [], []⟩).checks := by
  unfold classifyRequiredChecks
  rw [limitFailedJobs_checks]
  by_cases hfailures : (contexts.foldl RequiredCheckEvidence.add ⟨.absent, [], []⟩).failures.isEmpty
  · rw [if_pos hfailures]
  · rw [if_neg hfailures, appendSupportingFailures_checks]

/-- Without failures there are no failed jobs. -/
theorem foldl_add_jobs (hjobs : evidence.failures = [] → evidence.failedJobIds = [])
    (h : (contexts.foldl RequiredCheckEvidence.add evidence).failures = []) :
    (contexts.foldl RequiredCheckEvidence.add evidence).failedJobIds = [] := by
  induction contexts generalizing evidence with
  | nil => exact hjobs h
  | cons context contexts ih =>
    rw [List.foldl_cons] at h ⊢
    refine ih ?_ h
    unfold RequiredCheckEvidence.add
    cases requiredCheckOutcome context with
    | none => exact hjobs
    | some outcome =>
      cases outcome with
      | passed =>
        by_cases habsent : evidence.checks = .absent
        · simp only [if_pos habsent]
          exact hjobs
        · simp only [if_neg habsent]
          exact hjobs
      | pending => exact hjobs
      | failed diagnostic jobId => simp

theorem limitFailedJobs_failures (hjobs : evidence.failures = [] → evidence.failedJobIds = []) :
    (limitFailedJobs evidence).failures = [] ↔ evidence.failures = [] := by
  unfold limitFailedJobs
  by_cases hlimit : maxFailedCheckLogs < evidence.failedJobIds.eraseDups.length
  · simp only [if_pos hlimit, List.append_eq_nil_iff, List.cons_ne_self, and_false, false_iff]
    intro hnone
    rw [hjobs hnone] at hlimit
    exact absurd hlimit (by decide)
  · simp only [if_neg hlimit]

/-- There are failures exactly when a required check has failed. -/
theorem classifyRequiredChecks_failures :
    (classifyRequiredChecks contexts).failures = [] ↔
      RequiredAll RequiredCheckOutcome.unfailed contexts := by
  have hfold : (contexts.foldl RequiredCheckEvidence.add ⟨.absent, [], []⟩).failures = [] ↔
      RequiredAll RequiredCheckOutcome.unfailed contexts :=
    foldl_add_failures.trans (and_iff_right rfl)
  rw [← hfold]
  unfold classifyRequiredChecks
  by_cases hnone : (contexts.foldl RequiredCheckEvidence.add ⟨.absent, [], []⟩).failures = []
  · simp only [hnone, List.isEmpty_nil, if_true, iff_true]
    exact (limitFailedJobs_failures fun h => foldl_add_jobs (fun _ => rfl) h).mpr hnone
  · have hfails := @appendSupportingFailures_failures contexts _ hnone
    have hsome : ¬ (contexts.foldl RequiredCheckEvidence.add ⟨.absent, [], []⟩).failures.isEmpty =
        true := by
      rwa [List.isEmpty_iff]
    simp only [if_neg hsome]
    exact iff_of_false (fun h => hfails ((limitFailedJobs_failures fun h => absurd h hfails).mp h))
      hnone

end

/-- Permuted contexts give the same evidence, but for the texts of failures. -/
theorem classifyRequiredChecks_perm {contexts contexts' : List CheckContextWire}
    (h : contexts.Perm contexts') :
    (classifyRequiredChecks contexts).checks = (classifyRequiredChecks contexts').checks ∧
      ((classifyRequiredChecks contexts).failures = [] ↔
        (classifyRequiredChecks contexts').failures = []) := by
  constructor
  · rw [classifyRequiredChecks_checks, classifyRequiredChecks_checks]
    have hpending := (@foldl_add_pending contexts ⟨.absent, [], []⟩).trans
      ((and_congr_right fun _ => RequiredAll.perm h).trans foldl_add_pending.symm)
    have habsent := (@foldl_add_absent contexts ⟨.absent, [], []⟩).trans
      ((and_congr_right fun _ => RequiredAll.perm h).trans foldl_add_absent.symm)
    cases hleft : (contexts.foldl RequiredCheckEvidence.add ⟨.absent, [], []⟩).checks <;>
      cases hright : (contexts'.foldl RequiredCheckEvidence.add ⟨.absent, [], []⟩).checks <;>
      simp [hleft, hright] at hpending habsent ⊢
  · rw [classifyRequiredChecks_failures, classifyRequiredChecks_failures, RequiredAll.perm h]

/-! ## What a page holds -/

/-- The pull request of a page. -/
def QueryPageWire.pullRequest (page : QueryPageWire) : Option PullRequestPolicyWire :=
  page.repository.bind RepositoryPolicyWire.pullRequest

/-- The check contexts of the only commit. -/
def PullRequestPolicyWire.connection (pullRequest : PullRequestPolicyWire) :
    Option CheckContextConnectionWire :=
  match pullRequest.commits with
  | [commit] => commit.statusCheckRollup
  | _ => none

def QueryPageWire.connection (page : QueryPageWire) : Option CheckContextConnectionWire :=
  page.pullRequest.bind PullRequestPolicyWire.connection

/-- The check contexts of a page. -/
def QueryPageWire.contexts (page : QueryPageWire) : List CheckContextWire :=
  (page.connection.map CheckContextConnectionWire.nodes).getD []

/-- The cursor at the end of a page. -/
def QueryPageWire.cursor (page : QueryPageWire) : Option String :=
  page.connection.bind fun connection => connection.pageInfo.endCursor

/-- A page names exactly the review. -/
structure QueryPageWire.Names (page : QueryPageWire) (review : SourceReviewReceipt)
    (pullRequest : PullRequestPolicyWire) : Prop where
  holds : page.pullRequest = some pullRequest
  repository : page.repository.map RepositoryPolicyWire.nameWithOwner = some review.repository
  number : toString pullRequest.number = review.reviewId
  target : pullRequest.baseRefName = review.targetBranch
  base : pullRequest.baseRef.name = review.targetBranch
  branch : pullRequest.headRefName = review.headBranch
  revision : pullRequest.headRefOid = review.headRevision

theorem requireIdentity_ok {repository : RepositoryPolicyWire} {review : SourceReviewReceipt}
    {pullRequest : PullRequestPolicyWire}
    (h : requireIdentity repository review = .ok pullRequest) :
    repository.pullRequest = some pullRequest ∧
      QueryPageWire.Names ⟨some repository⟩ review pullRequest := by
  unfold requireIdentity at h
  cases hheld : repository.pullRequest with
  | none =>
    rw [hheld] at h
    cases h
  | some held =>
    rw [hheld] at h
    dsimp only at h
    by_cases hvalid : (!isBlank held.id && repository.nameWithOwner = review.repository &&
        toString held.number = review.reviewId && held.baseRefName = review.targetBranch &&
        held.baseRef.name = review.targetBranch && held.headRefName = review.headBranch &&
        held.headRefOid = review.headRevision) = true
    · rw [if_pos hvalid] at h
      cases h
      simp only [Bool.and_eq_true, decide_eq_true_eq] at hvalid
      obtain ⟨⟨⟨⟨⟨⟨-, hrepository⟩, hnumber⟩, htarget⟩, hbase⟩, hbranch⟩, hrevision⟩ := hvalid
      exact ⟨rfl, hheld, congrArg some hrepository, hnumber, htarget, hbase, hbranch, hrevision⟩
    · rw [if_neg hvalid] at h
      cases h

theorem checkContexts_ok {pullRequest : PullRequestPolicyWire}
    {rollup : Option CheckContextConnectionWire} (h : checkContexts pullRequest = .ok rollup) :
    pullRequest.connection = rollup := by
  unfold checkContexts at h
  unfold PullRequestPolicyWire.connection
  cases hcommits : pullRequest.commits with
  | nil =>
    rw [hcommits] at h
    cases h
  | cons commit commits =>
    rw [hcommits] at h
    cases commits with
    | nil => exact Except.ok.inj h
    | cons other commits => cases h

/-! ## Complete paginations -/

/-- One more page completes a pagination, and is the one after the given cursors. -/
structure PageCompletes (page : QueryPageWire) (index pageCount : Nat)
    (cursors cursors' : OrdSet String) : Prop where
  /-- Only a single page may come without contexts. -/
  single : page.connection = none → pageCount = 1
  /-- Every page but the last announces the next one. -/
  announces : ∀ connection, page.connection = some connection →
    (connection.pageInfo.hasNextPage = true ↔ index + 1 ≠ pageCount) ∧
      (connection.pageInfo.hasNextPage = true → connection.pageInfo.endCursor.isSome = true)
  fresh : ∀ cursor, page.cursor = some cursor → cursor ∉ cursors
  seen : ∀ cursor, cursor ∈ cursors' ↔ page.cursor = some cursor ∨ cursor ∈ cursors

theorem pageIsComplete_completes {page : QueryPageWire} {index pageCount : Nat}
    {cursors cursors' : OrdSet String} {connection : CheckContextConnectionWire}
    (hpage : page.connection = some connection)
    (h : pageIsComplete connection index pageCount cursors = (true, cursors')) :
    PageCompletes page index pageCount cursors cursors' := by
  have hcursor : page.cursor = connection.pageInfo.endCursor := by
    rw [QueryPageWire.cursor, hpage]
    rfl
  have hpagination : ∀ next : Bool, (next != (index + 1 == pageCount)) = true →
      (next = true ↔ index + 1 ≠ pageCount) := by
    intro next hnext
    by_cases hlast : index + 1 = pageCount <;> cases next <;> simp_all
  have hconnection : ∀ other, page.connection = some other → other = connection := by
    intro other hother
    rw [hpage] at hother
    exact (Option.some.inj hother).symm
  have hsingle : page.connection = none → pageCount = 1 := by
    intro hnone
    rw [hpage] at hnone
    cases hnone
  unfold pageIsComplete at h
  cases hend : connection.pageInfo.endCursor with
  | some cursor =>
    rw [hend] at h
    dsimp only at h
    by_cases hmatches :
        (connection.pageInfo.hasNextPage != (index + 1 == pageCount)) = true
    · rw [if_pos hmatches] at h
      obtain ⟨hnew, hcursors⟩ := Prod.mk.inj h
      rw [Bool.not_eq_true', ← Bool.not_eq_true, OrdSet.contains_iff_mem] at hnew
      refine ⟨hsingle, fun other hother => ?_, fun other hother => ?_, fun other => ?_⟩
      · cases hconnection other hother
        exact ⟨hpagination _ hmatches, fun _ => by rw [hend]; rfl⟩
      · rw [hcursor, hend] at hother
        cases hother
        exact hnew
      · rw [← hcursors, OrdSet.mem_insert, hcursor, hend, Option.some.injEq, eq_comm]
    · rw [if_neg hmatches] at h
      cases h
  | none =>
    rw [hend] at h
    obtain ⟨hcomplete, rfl⟩ := Prod.mk.inj h
    rw [Bool.and_eq_true] at hcomplete
    refine ⟨hsingle, fun other hother => ?_, fun other hother => ?_, fun other => ?_⟩
    · cases hconnection other hother
      refine ⟨hpagination _ hcomplete.1, fun hnext => ?_⟩
      rw [hnext] at hcomplete
      cases hcomplete.2
    · rw [hcursor, hend] at hother
      cases hother
    · rw [hcursor, hend]
      simp

/-! ## Collecting -/

section

variable {first : RepositoryPolicyWire} {firstPullRequest : PullRequestPolicyWire}
  {review : SourceReviewReceipt} {pageCount : Nat}

/-- What one page adds. -/
theorem collectPage_ok {index : Nat} {page : QueryPageWire} {collected after : Collected}
    (hfirst : first.pullRequest = some firstPullRequest)
    (h : collectPage first review pageCount index page collected = .ok after) :
    after.contexts = collected.contexts ++ page.contexts ∧
      (∃ pullRequest, page.Names review pullRequest) ∧
      (after.complete = true → collected.complete = true ∧
        page.pullRequest.map PullRequestPolicyWire.policy = some firstPullRequest.policy ∧
        PageCompletes page index pageCount collected.cursors after.cursors) := by
  unfold collectPage at h
  obtain ⟨held⟩ := page
  cases held with
  | none => cases h
  | some repository =>
    dsimp only at h
    obtain ⟨pullRequest, hidentity, h⟩ := except_bind_eq_ok.mp h
    obtain ⟨hheld, hnames⟩ := requireIdentity_ok hidentity
    rw [hfirst] at h
    dsimp only at h
    obtain ⟨rollup, hrollup, h⟩ := except_bind_eq_ok.mp h
    have hconnection : QueryPageWire.connection ⟨some repository⟩ = rollup := by
      rw [QueryPageWire.connection, hnames.holds, Option.bind_some]
      exact checkContexts_ok hrollup
    have hpolicy : samePolicy firstPullRequest pullRequest = true →
        (QueryPageWire.pullRequest ⟨some repository⟩).map PullRequestPolicyWire.policy =
          some firstPullRequest.policy := by
      intro hsame
      rw [hnames.holds, Option.map_some, of_decide_eq_true hsame]
    cases rollup with
    | none =>
      cases h
      refine ⟨?_, ⟨pullRequest, hnames⟩, fun hcomplete => ?_⟩
      · rw [QueryPageWire.contexts, hconnection]
        exact (List.append_nil _).symm
      · simp only [Bool.and_eq_true, beq_iff_eq] at hcomplete
        refine ⟨hcomplete.1.1, hpolicy hcomplete.1.2, fun _ => hcomplete.2, ?_, ?_, ?_⟩
        · intro connection hsome
          rw [hconnection] at hsome
          cases hsome
        · intro cursor hcursor
          rw [QueryPageWire.cursor, hconnection] at hcursor
          cases hcursor
        · intro cursor
          rw [QueryPageWire.cursor, hconnection]
          simp
    | some connection =>
      dsimp only at h
      cases hcomplete : pageIsComplete connection index pageCount collected.cursors with
      | mk complete cursors =>
        rw [hcomplete] at h
        cases h
        refine ⟨?_, ⟨pullRequest, hnames⟩, fun hall => ?_⟩
        · rw [QueryPageWire.contexts, hconnection]
          rfl
        · simp only [Bool.and_eq_true] at hall
          obtain ⟨⟨hbefore, hsame⟩, rfl⟩ := hall
          exact ⟨hbefore, hpolicy hsame, pageIsComplete_completes hconnection hcomplete⟩

/-- Pages from an index on complete a pagination. -/
structure PagesComplete (pages : List QueryPageWire) (index pageCount : Nat)
    (cursors : OrdSet String) : Prop where
  single : ∀ page ∈ pages, page.connection = none → pageCount = 1
  announces : ∀ (offset : Nat) (page : QueryPageWire) (connection : CheckContextConnectionWire),
    pages[offset]? = some page → page.connection = some connection →
      (connection.pageInfo.hasNextPage = true ↔ index + offset + 1 ≠ pageCount) ∧
        (connection.pageInfo.hasNextPage = true → connection.pageInfo.endCursor.isSome = true)
  distinct : (pages.filterMap QueryPageWire.cursor).Nodup
  fresh : ∀ cursor ∈ pages.filterMap QueryPageWire.cursor, cursor ∉ cursors

theorem PagesComplete.cons {page : QueryPageWire} {pages : List QueryPageWire} {index : Nat}
    {cursors cursors' : OrdSet String} (hpage : PageCompletes page index pageCount cursors cursors')
    (hpages : PagesComplete pages (index + 1) pageCount cursors') :
    PagesComplete (page :: pages) index pageCount cursors where
  single := List.forall_mem_cons.mpr ⟨hpage.single, hpages.single⟩
  announces := by
    intro offset other connection hother hconnection
    cases offset with
    | zero =>
      cases hother
      exact hpage.announces connection hconnection
    | succ offset =>
      rw [List.getElem?_cons_succ] at hother
      have hannounces := hpages.announces offset other connection hother hconnection
      rwa [show index + 1 + offset + 1 = index + (offset + 1) + 1 by omega] at hannounces
  distinct := by
    cases hcursor : page.cursor with
    | none =>
      rw [List.filterMap_cons_none hcursor]
      exact hpages.distinct
    | some cursor =>
      rw [List.filterMap_cons_some hcursor, List.nodup_cons]
      refine ⟨fun hin => ?_, hpages.distinct⟩
      exact hpages.fresh cursor hin ((hpage.seen cursor).mpr (.inl hcursor))
  fresh := by
    intro cursor hin hold
    rw [List.mem_filterMap] at hin
    obtain ⟨other, hother, hcursor⟩ := hin
    rcases List.mem_cons.mp hother with rfl | hother
    · exact hpage.fresh cursor hcursor hold
    · refine hpages.fresh cursor (List.mem_filterMap.mpr ⟨other, hother, hcursor⟩) ?_
      exact (hpage.seen cursor).mpr (.inr hold)

/-- What all pages add. -/
theorem collectPages_ok {index : Nat} {pages : List QueryPageWire} {collected after : Collected}
    (hfirst : first.pullRequest = some firstPullRequest)
    (h : collectPages first review pageCount index pages collected = .ok after) :
    after.contexts = collected.contexts ++ pages.flatMap QueryPageWire.contexts ∧
      (∀ page ∈ pages, ∃ pullRequest, page.Names review pullRequest) ∧
      (after.complete = true → collected.complete = true ∧
        (∀ page ∈ pages, page.pullRequest.map PullRequestPolicyWire.policy =
          some firstPullRequest.policy) ∧
        PagesComplete pages index pageCount collected.cursors) := by
  induction pages generalizing index collected with
  | nil =>
    cases h
    refine ⟨(List.append_nil _).symm, fun page hin => absurd hin List.not_mem_nil, fun hcomplete =>
      ⟨hcomplete, fun page hin => absurd hin List.not_mem_nil, ?_, ?_, List.nodup_nil, ?_⟩⟩
    · exact fun page hin => absurd hin List.not_mem_nil
    · intro offset page connection hpage
      simp at hpage
    · exact fun cursor hin => absurd hin List.not_mem_nil
  | cons page pages ih =>
    obtain ⟨middle, hpage, hpages⟩ := except_bind_eq_ok.mp h
    obtain ⟨hcontexts, hnames, hcomplete⟩ := collectPage_ok hfirst hpage
    obtain ⟨hcontexts', hnames', hcomplete'⟩ := ih hpages
    refine ⟨?_, List.forall_mem_cons.mpr ⟨hnames, hnames'⟩, fun hall => ?_⟩
    · rw [hcontexts', hcontexts, List.flatMap_cons, List.append_assoc]
    · obtain ⟨hmiddle, hpolicies, hrest⟩ := hcomplete' hall
      obtain ⟨hbefore, hpolicy, hone⟩ := hcomplete hmiddle
      exact ⟨hbefore, List.forall_mem_cons.mpr ⟨hpolicy, hpolicies⟩, hrest.cons hone⟩

end

/-! ## A mergeable snapshot -/

/-- The names that the update rule of the base branch requires; empty ones require nothing. -/
def requiredNames (pullRequest : PullRequestPolicyWire) : List String :=
  (((pullRequest.baseRef.refUpdateRule.bind
    RefUpdateRuleWire.requiredStatusCheckContexts).getD []).filterMap id).filter fun name =>
      !name.isEmpty

theorem requiredContextIsMissing_eq_false {pullRequest : PullRequestPolicyWire}
    {contexts : List CheckContextWire} :
    requiredContextIsMissing pullRequest contexts = false ↔
      ∀ name ∈ requiredNames pullRequest, ∃ context ∈ contexts,
        context.isRequired = true ∧ context.name = name := by
  unfold requiredContextIsMissing requiredNames
  cases pullRequest.baseRef.refUpdateRule.bind RefUpdateRuleWire.requiredStatusCheckContexts with
  | none => simp
  | some required =>
    simp only [Option.getD_some, List.any_eq_false, List.mem_filter, Bool.and_eq_true,
      Bool.not_eq_true', not_and]
    refine forall_congr' fun name => ?_
    rw [and_imp]
    refine imp_congr_right fun _ => imp_congr_right fun _ => ?_
    rw [Bool.not_eq_false, List.contains_iff_mem, List.mem_map]
    simp only [List.mem_filter]
    exact exists_congr fun context => and_assoc

theorem readyChecks_mergeable {policyReady : Bool} {checks : RequiredChecks} :
    (SourceReviewState.openReview (readyChecks policyReady checks)).mergeable = true ↔
      policyReady = true ∧ checks ≠ .pending := by
  cases policyReady <;> cases checks <;> simp [readyChecks, SourceReviewState.mergeable]

/-- What a mergeable snapshot of an open pull request says. -/
structure Ready (pullRequest : PullRequestPolicyWire) (contexts : List CheckContextWire) :
    Prop where
  passed : RequiredAll (· = .passed) contexts
  observed : ∀ name ∈ requiredNames pullRequest, ∃ context ∈ contexts,
    context.isRequired = true ∧ context.name = name
  policy : (mergeGateReady pullRequest || pullRequestReady pullRequest) = true

/-- The snapshot of a pull request whose checks are fine. -/
def readySnapshot (pullRequest : PullRequestPolicyWire) (contexts : List CheckContextWire)
    (checks : RequiredChecks) : PolicySnapshot where
  pullRequestId := pullRequest.id
  isInMergeQueue := pullRequest.isInMergeQueue
  autoMergeEnabled := pullRequest.autoMergeRequest.isSome
  state := .openReview
    (readyChecks (mergeGateReady pullRequest || pullRequestReady pullRequest) checks)
  failedJobIds := []
  isMergeQueueEnabled := pullRequest.isMergeQueueEnabled
  headUpdate := headUpdate pullRequest
  pullRequestReady := checks ≠ .pending && pullRequestReady pullRequest
  observedRequiredChecks := (contexts.filter CheckContextWire.isRequired).map fun context =>
    (context.name, context.integrationId)

/-- The checks that `classify_snapshot` goes by. -/
def snapshotChecks (pullRequest : PullRequestPolicyWire) (contexts : List CheckContextWire) :
    RequiredChecks :=
  if requiredContextIsMissing pullRequest contexts then .pending
  else (classifyRequiredChecks contexts).checks

theorem classifySnapshot_of_unfailed {pullRequest : PullRequestPolicyWire}
    {contexts : List CheckContextWire} (h : (classifyRequiredChecks contexts).failures = []) :
    classifySnapshot pullRequest contexts =
      readySnapshot pullRequest contexts (snapshotChecks pullRequest contexts) := by
  unfold classifySnapshot readySnapshot snapshotChecks
  simp only [h, List.isEmpty_nil, Bool.not_true, Bool.false_eq_true, if_false]

theorem classifySnapshot_of_failed {pullRequest : PullRequestPolicyWire}
    {contexts : List CheckContextWire} (h : (classifyRequiredChecks contexts).failures ≠ []) :
    (classifySnapshot pullRequest contexts).state =
      .openReview (.failed (failureDiagnostic (classifyRequiredChecks contexts).failures)) := by
  unfold classifySnapshot
  simp only [List.isEmpty_eq_false_iff.mpr h, Bool.not_false, if_true]

/-- A mergeable snapshot is that of a ready pull request. -/
theorem classifySnapshot_mergeable {pullRequest : PullRequestPolicyWire}
    {contexts : List CheckContextWire}
    (h : (classifySnapshot pullRequest contexts).state.mergeable = true) :
    Ready pullRequest contexts ∧ ∃ checks, checks ≠ .pending ∧
      classifySnapshot pullRequest contexts = readySnapshot pullRequest contexts checks := by
  by_cases hfailures : (classifyRequiredChecks contexts).failures = []
  · have hsnapshot := @classifySnapshot_of_unfailed pullRequest contexts hfailures
    rw [hsnapshot] at h
    obtain ⟨hpolicy, hchecks⟩ := readyChecks_mergeable.mp h
    refine ⟨⟨?_, ?_, hpolicy⟩, _, hchecks, hsnapshot⟩
    · intro context hin hrequired
      have hpending : (classifyRequiredChecks contexts).checks ≠ .pending := by
        unfold snapshotChecks at hchecks
        by_cases hmissing : requiredContextIsMissing pullRequest contexts = true
        · rw [if_pos hmissing] at hchecks
          exact absurd rfl hchecks
        · rwa [if_neg hmissing] at hchecks
      rw [classifyRequiredChecks_checks, foldl_add_pending] at hpending
      have hunfailed := classifyRequiredChecks_failures.mp hfailures context hin hrequired
      cases houtcome : checkOutcome context with
      | passed => rfl
      | pending => exact absurd houtcome (hpending.2 context hin hrequired)
      | failed diagnostic jobId =>
        rw [houtcome] at hunfailed
        exact hunfailed.elim
    · rw [← requiredContextIsMissing_eq_false]
      unfold snapshotChecks at hchecks
      by_cases hmissing : requiredContextIsMissing pullRequest contexts = true
      · rw [if_pos hmissing] at hchecks
        exact absurd rfl hchecks
      · rwa [Bool.not_eq_true] at hmissing
  · rw [classifySnapshot_of_failed hfailures] at h
    cases h

/-! ## Branch rules -/

/-- A snapshot that waits for a check. -/
def PolicySnapshot.awaiting (snapshot : PolicySnapshot) : PolicySnapshot :=
  { snapshot with state := .openReview .pending, pullRequestReady := false }

/-- Checks are applied as a whole. -/
theorem applyChecks_eq (snapshot : PolicySnapshot) (checks : List BranchCheckWire) :
    snapshot.applyChecks checks =
      if checks.any (fun check => isBlank check.context) then
        .error (apiError "GitHub returned an empty required check context")
      else .ok (if checks.all snapshot.observes then snapshot else snapshot.awaiting) := by
  induction checks generalizing snapshot with
  | nil => rfl
  | cons check checks ih =>
    rw [PolicySnapshot.applyChecks, PolicySnapshot.applyCheck, List.any_cons, List.all_cons]
    cases hblank : isBlank check.context with
    | true => rfl
    | false =>
      rw [Bool.false_or]
      simp only [Bool.false_eq_true, if_false]
      cases hobserved : snapshot.observes check with
      | true =>
        simp only [if_true, Bool.true_and]
        exact ih snapshot
      | false =>
        simp only [Bool.false_eq_true, if_false, Bool.false_and]
        refine (ih snapshot.awaiting).trans ?_
        have hawaiting : snapshot.awaiting.awaiting = snapshot.awaiting := rfl
        rw [hawaiting, ite_self]

theorem observes_iff {snapshot : PolicySnapshot} {check : BranchCheckWire} :
    snapshot.observes check = true ↔ ∃ observed ∈ snapshot.observedRequiredChecks,
      observed.1 = check.context ∧ ∀ id, check.integrationId = some id → observed.2 = some id := by
  unfold PolicySnapshot.observes
  rw [List.any_eq_true]
  refine exists_congr fun observed => and_congr_right fun _ => ?_
  rw [Bool.and_eq_true, decide_eq_true_iff]
  refine and_congr_right fun _ => ?_
  cases check.integrationId with
  | none => simp
  | some id => simp [eq_comm]

/-- A snapshot stays mergeable only when every required check was observed. -/
theorem applyChecks_mergeable {snapshot after : PolicySnapshot} {checks : List BranchCheckWire}
    (h : snapshot.applyChecks checks = .ok after) (hmergeable : after.state.mergeable = true) :
    after = snapshot ∧ ∀ check ∈ checks, snapshot.observes check = true := by
  rw [applyChecks_eq] at h
  by_cases hblank : (checks.any fun check => isBlank check.context) = true
  · rw [if_pos hblank] at h
    cases h
  · rw [if_neg hblank] at h
    by_cases hall : checks.all snapshot.observes = true
    · rw [if_pos hall] at h
      cases h
      exact ⟨rfl, List.all_eq_true.mp hall⟩
    · rw [if_neg hall] at h
      cases h
      cases hmergeable

theorem applyBranchRules_mergeable {snapshot after : PolicySnapshot}
    {response : Except String (List (List BranchRuleWire))}
    (h : snapshot.applyBranchRules response = .ok after)
    (hmergeable : after.state.mergeable = true) :
    ∃ pages, response = .ok pages ∧ after = snapshot ∧
      ∀ check ∈ pages.flatten.flatMap BranchRuleWire.checks, snapshot.observes check = true := by
  unfold PolicySnapshot.applyBranchRules at h
  cases response with
  | error error => cases h
  | ok pages =>
    obtain ⟨_, hpages, h⟩ := except_bind_eq_ok.mp h
    cases hpages
    by_cases hempty : pages.isEmpty = true
    · rw [if_pos hempty] at h
      cases h
    · rw [if_neg hempty] at h
      exact ⟨pages, rfl, applyChecks_mergeable h hmergeable⟩

/-! ## Submitted merges -/

/-- The pages name the review, agree with one pull request, and form one complete pagination. -/
structure Trusted (pages : List QueryPageWire) (review : SourceReviewReceipt)
    (pullRequest : PullRequestPolicyWire) : Prop where
  names : ∀ page ∈ pages, ∃ held, page.Names review held ∧ held.policy = pullRequest.policy
  /-- Only a single page may come without contexts. -/
  single : ∀ page ∈ pages, page.connection = none → pages.length = 1
  /-- Every page but the last announces the next one, with a cursor. -/
  announces : ∀ (index : Nat) (page : QueryPageWire) (connection : CheckContextConnectionWire),
    pages[index]? = some page → page.connection = some connection →
      (connection.pageInfo.hasNextPage = true ↔ index + 1 ≠ pages.length) ∧
        (connection.pageInfo.hasNextPage = true → connection.pageInfo.endCursor.isSome = true)
  /-- No cursor is repeated. -/
  distinct : (pages.filterMap QueryPageWire.cursor).Nodup

/-- A pull request that may be merged. -/
structure Candidate (pullRequest : PullRequestPolicyWire) : Prop where
  published : pullRequest.isDraft = false
  unqueued : pullRequest.isInMergeQueue = false
  mergeable : pullRequest.mergeable ≠ "CONFLICTING"
  clean : pullRequest.mergeStateStatus ≠ "DIRTY"
  /-- A merge queue brings the branch up to date by itself. -/
  current : pullRequest.mergeStateStatus = "BEHIND" → pullRequest.isMergeQueueEnabled = true

theorem terminalSnapshot_none {pullRequest : PullRequestPolicyWire}
    (h : terminalSnapshot pullRequest = .ok none) :
    pullRequest.mergeable ≠ "CONFLICTING" ∧ pullRequest.mergeStateStatus ≠ "DIRTY" := by
  unfold terminalSnapshot at h
  by_cases hmerged : pullRequest.merged = true
  · rw [if_pos hmerged] at h
    cases hsnapshot : mergedSnapshot pullRequest with
    | error error =>
      rw [hsnapshot] at h
      cases h
    | ok snapshot =>
      rw [hsnapshot] at h
      cases h
  · rw [if_neg hmerged] at h
    by_cases hclosed : pullRequest.state = "CLOSED"
    · rw [if_pos hclosed] at h
      cases h
    · rw [if_neg hclosed] at h
      by_cases hopen : pullRequest.state = "OPEN"
      · rw [if_pos hopen] at h
        by_cases hconflict : pullRequest.mergeable = "CONFLICTING" ∨
            pullRequest.mergeStateStatus = "DIRTY"
        · rw [if_pos hconflict] at h
          cases h
        · exact not_or.mp hconflict
      · rw [if_neg hopen] at h
        cases h

theorem terminalSnapshot_some {pullRequest : PullRequestPolicyWire} {snapshot : PolicySnapshot}
    (h : terminalSnapshot pullRequest = .ok (some snapshot)) :
    snapshot.state.mergeable = false := by
  unfold terminalSnapshot at h
  by_cases hmerged : pullRequest.merged = true
  · rw [if_pos hmerged] at h
    cases hsnapshot : mergedSnapshot pullRequest with
    | error error =>
      rw [hsnapshot] at h
      cases h
    | ok merged =>
      rw [hsnapshot] at h
      cases h
      unfold mergedSnapshot at hsnapshot
      cases hcommit : pullRequest.mergeCommit.filter validRevision with
      | none =>
        rw [hcommit] at hsnapshot
        cases hsnapshot
      | some revision =>
        rw [hcommit] at hsnapshot
        dsimp only at hsnapshot
        by_cases hstate : pullRequest.state = "MERGED"
        · rw [if_pos hstate] at hsnapshot
          cases hsnapshot
          rfl
        · rw [if_neg hstate] at hsnapshot
          cases hsnapshot
  · rw [if_neg hmerged] at h
    by_cases hclosed : pullRequest.state = "CLOSED"
    · rw [if_pos hclosed] at h
      cases h
      rfl
    · rw [if_neg hclosed] at h
      by_cases hopen : pullRequest.state = "OPEN"
      · rw [if_pos hopen] at h
        by_cases hconflict : pullRequest.mergeable = "CONFLICTING" ∨
            pullRequest.mergeStateStatus = "DIRTY"
        · rw [if_pos hconflict] at h
          cases h
          rfl
        · rw [if_neg hconflict] at h
          cases h
      · rw [if_neg hopen] at h
        cases h

/-- A mergeable snapshot comes from trusted pages of a ready pull request. -/
theorem classifyPolicy_mergeable {response : Except String (List QueryPageWire)}
    {review : SourceReviewReceipt} {snapshot : PolicySnapshot}
    (h : classifyPolicy response review = .ok snapshot)
    (hmergeable : snapshot.state.mergeable = true) :
    ∃ pages pullRequest checks, response = .ok pages ∧ Trusted pages review pullRequest ∧
      Ready pullRequest (pages.flatMap QueryPageWire.contexts) ∧
      pullRequest.mergeable ≠ "CONFLICTING" ∧ pullRequest.mergeStateStatus ≠ "DIRTY" ∧
      checks ≠ .pending ∧
      snapshot = readySnapshot pullRequest (pages.flatMap QueryPageWire.contexts) checks := by
  unfold classifyPolicy at h
  obtain ⟨pages, hpages, h⟩ := except_bind_eq_ok.mp h
  have hresponse : response = .ok pages := by
    cases response with
    | error error => cases hpages
    | ok held =>
      cases hpages
      rfl
  unfold classifyPages at h
  cases hfirst : pages.head?.bind QueryPageWire.repository with
  | none =>
    rw [hfirst] at h
    cases h
  | some first =>
    rw [hfirst] at h
    dsimp only at h
    obtain ⟨pullRequest, hidentity, h⟩ := except_bind_eq_ok.mp h
    obtain ⟨collected, hcollected, h⟩ := except_bind_eq_ok.mp h
    obtain ⟨hcontexts, hnames, hcomplete⟩ :=
      collectPages_ok (requireIdentity_ok hidentity).1 hcollected
    unfold classifyCollected at h
    by_cases hall : collected.complete = true
    · rw [hall] at h
      simp only [Bool.not_true, Bool.false_eq_true, if_false] at h
      obtain ⟨-, hpolicies, hpagination⟩ := hcomplete hall
      obtain ⟨terminal, hterminal, h⟩ := except_bind_eq_ok.mp h
      cases terminal with
      | some terminal =>
        cases h
        rw [terminalSnapshot_some hterminal] at hmergeable
        cases hmergeable
      | none =>
        cases h
        rw [List.nil_append] at hcontexts
        rw [hcontexts] at hmergeable ⊢
        obtain ⟨hready, checks, hchecks, hsnapshot⟩ := classifySnapshot_mergeable hmergeable
        obtain ⟨hconflicting, hdirty⟩ := terminalSnapshot_none hterminal
        refine ⟨pages, pullRequest, checks, hresponse, ⟨?_, hpagination.single, ?_,
          hpagination.distinct⟩, hready, hconflicting, hdirty, hchecks, hsnapshot⟩
        · intro page hin
          obtain ⟨held, hheld⟩ := hnames page hin
          have hpolicy := hpolicies page hin
          rw [hheld.holds] at hpolicy
          exact ⟨held, hheld, Option.some.inj hpolicy⟩
        · intro index page connection hpage hconnection
          have hannounces := hpagination.announces index page connection hpage hconnection
          rwa [Nat.zero_add] at hannounces
    · rw [Bool.not_eq_true] at hall
      rw [hall] at h
      simp only [Bool.not_false, if_true] at h
      cases h
      cases hmergeable

/-- What a submitted merge says about the answers. -/
structure Permitted (review : SourceReviewReceipt) (pages : List QueryPageWire)
    (ruleWires : List (List BranchRuleWire)) (queued : Bool) : Prop where
  /-- All pages show one pull request, up to the names that `Trusted` checks. -/
  trusted : ∃ pullRequest, Trusted pages review pullRequest ∧ Candidate pullRequest ∧
    pullRequest.isMergeQueueEnabled = queued ∧
    ∀ name ∈ requiredNames pullRequest, ∃ context ∈ pages.flatMap QueryPageWire.contexts,
      context.isRequired = true ∧ context.name = name
  /-- Every required check has passed. -/
  passed : ∀ context ∈ pages.flatMap QueryPageWire.contexts, context.isRequired = true →
    checkOutcome context = .passed
  /-- Every required check of a branch rule was observed, with its integration. -/
  observed : ∀ rule ∈ ruleWires.flatten, ∀ check ∈ rule.checks,
    ∃ context ∈ pages.flatMap QueryPageWire.contexts, context.isRequired = true ∧
      context.name = check.context ∧
      ∀ id, check.integrationId = some id → context.integrationId = some id

theorem mergeAction_submit {snapshot : PolicySnapshot} {queued : Bool}
    (h : mergeAction snapshot = .ok (.submit queued)) :
    snapshot.state.mergeable = true ∧ snapshot.pullRequestReady = false ∧
      snapshot.headUpdate = none ∧ snapshot.isMergeQueueEnabled = queued := by
  unfold mergeAction at h
  cases hstate : snapshot.state with
  | merged revision => rw [hstate] at h; cases h
  | conflict => rw [hstate] at h; cases h
  | closed => rw [hstate] at h; cases h
  | openReview checks =>
    rw [hstate] at h
    dsimp only at h
    by_cases hready : ((SourceReviewState.openReview checks).mergeable &&
        !snapshot.pullRequestReady) = true
    · rw [if_pos hready] at h
      rw [Bool.and_eq_true, Bool.not_eq_true'] at hready
      cases hupdate : snapshot.headUpdate with
      | none =>
        rw [hupdate] at h
        cases h
        exact ⟨hready.1, hready.2, rfl, rfl⟩
      | some update =>
        rw [hupdate] at h
        cases h
    · rw [if_neg hready] at h
      cases h

/-- A mergeable pull request that needs neither a new head nor an approval is a candidate. -/
theorem candidate_of_ready {pullRequest : PullRequestPolicyWire}
    (hgate : mergeGateReady pullRequest = true) (hupdate : headUpdate pullRequest = none)
    (hconflicting : pullRequest.mergeable ≠ "CONFLICTING")
    (hdirty : pullRequest.mergeStateStatus ≠ "DIRTY") : Candidate pullRequest := by
  unfold mergeGateReady at hgate
  simp only [Bool.and_eq_true, Bool.not_eq_true', Bool.or_eq_true, decide_eq_true_eq] at hgate
  obtain ⟨⟨hpublished, hunqueued⟩, hready⟩ := hgate
  refine ⟨hpublished, hunqueued, hconflicting, hdirty, fun hbehind => ?_⟩
  by_contra hqueue
  rw [Bool.not_eq_true] at hqueue
  have hmergeable := (hready.resolve_left (by rw [hqueue]; exact Bool.false_ne_true)).1
  unfold headUpdate at hupdate
  simp [hqueue, hpublished, hunqueued, hmergeable, hbehind] at hupdate

theorem mergeVerdict_submit {answers : PolicyAnswers} {review : SourceReviewReceipt}
    {queued : Bool} (h : mergeVerdict answers review = .ok (.submit queued)) :
    ∃ pages ruleWires, answers.policy = .ok (.ok pages) ∧
      answers.branchRules = .ok (.ok ruleWires) ∧ Permitted review pages ruleWires queued := by
  obtain ⟨after, hafter, haction⟩ := except_bind_eq_ok.mp h
  obtain ⟨hmergeable, hunready, hupdate, hqueued⟩ := mergeAction_submit haction
  unfold policySnapshot at hafter
  by_cases hquery : (!validQuery review) = true
  · rw [if_pos hquery] at hafter
    cases hafter
  · rw [if_neg hquery] at hafter
    obtain ⟨response, hpolicy, hafter⟩ := except_bind_eq_ok.mp hafter
    obtain ⟨snapshot, hsnapshot, hafter⟩ := except_bind_eq_ok.mp hafter
    unfold PolicySnapshot.readBranchRules at hafter
    by_cases hopen : snapshot.state.mergeable = true
    · rw [if_pos hopen] at hafter
      by_cases hbranch : (!validBranch review.targetBranch) = true
      · rw [if_pos hbranch] at hafter
        cases hafter
      · rw [if_neg hbranch] at hafter
        obtain ⟨rules, hrules, hafter⟩ := except_bind_eq_ok.mp hafter
        obtain ⟨ruleWires, hdecoded, rfl, hobserved⟩ :=
          applyBranchRules_mergeable hafter hmergeable
        rw [hdecoded] at hrules
        obtain ⟨pages, pullRequest, checks, hpages, htrusted, hready, hconflicting, hdirty,
          hchecks, rfl⟩ := classifyPolicy_mergeable hsnapshot hopen
        rw [hpages] at hpolicy
        have happroved : pullRequestReady pullRequest = false := by
          change (decide (checks ≠ .pending) && pullRequestReady pullRequest) = false at hunready
          rwa [decide_eq_true hchecks, Bool.true_and] at hunready
        have hgate : mergeGateReady pullRequest = true := by
          have hpolicy := hready.policy
          rwa [happroved, Bool.or_false] at hpolicy
        refine ⟨pages, ruleWires, hpolicy, hrules, ⟨pullRequest, htrusted,
          candidate_of_ready hgate hupdate hconflicting hdirty, hqueued, hready.observed⟩,
          hready.passed, fun rule hrule check hcheck => ?_⟩
        obtain ⟨observed, hin, hname, hintegration⟩ :=
          observes_iff.mp (hobserved check (List.mem_flatMap.mpr ⟨rule, hrule, hcheck⟩))
        obtain ⟨context, hcontext, rfl⟩ := List.mem_map.mp hin
        obtain ⟨hcontext, hrequired⟩ := List.mem_filter.mp hcontext
        exact ⟨context, hcontext, hrequired, hname, hintegration⟩
    · rw [if_neg hopen] at hafter
      cases hafter
      exact absurd hmergeable hopen

/-! ## Pages without their contexts -/

def CheckContextConnectionWire.bare (connection : CheckContextConnectionWire) :
    CheckContextConnectionWire :=
  { connection with nodes := [] }

def CommitWire.bare (commit : CommitWire) : CommitWire :=
  ⟨commit.statusCheckRollup.map CheckContextConnectionWire.bare⟩

def PullRequestPolicyWire.bare (pullRequest : PullRequestPolicyWire) : PullRequestPolicyWire :=
  { pullRequest with commits := pullRequest.commits.map CommitWire.bare }

def RepositoryPolicyWire.bare (repository : RepositoryPolicyWire) : RepositoryPolicyWire :=
  { repository with pullRequest := repository.pullRequest.map PullRequestPolicyWire.bare }

/-- The page without the contexts of its commits. -/
def QueryPageWire.bare (page : QueryPageWire) : QueryPageWire :=
  ⟨page.repository.map RepositoryPolicyWire.bare⟩

/-- The same pages with their contexts in another order, on the same or on other pages. -/
structure ReorderedContexts (pages pages' : List QueryPageWire) : Prop where
  bare : pages.map QueryPageWire.bare = pages'.map QueryPageWire.bare
  contexts : (pages.flatMap QueryPageWire.contexts).Perm (pages'.flatMap QueryPageWire.contexts)

section

variable {review : SourceReviewReceipt}

theorem requireIdentity_bare (repository : RepositoryPolicyWire) :
    requireIdentity repository.bare review =
      (requireIdentity repository review).map PullRequestPolicyWire.bare := by
  unfold requireIdentity RepositoryPolicyWire.bare
  cases repository.pullRequest with
  | none => rfl
  | some pullRequest =>
    dsimp only [Option.map_some, PullRequestPolicyWire.bare]
    by_cases hvalid : (!isBlank pullRequest.id && repository.nameWithOwner = review.repository &&
        toString pullRequest.number = review.reviewId &&
        pullRequest.baseRefName = review.targetBranch &&
        pullRequest.baseRef.name = review.targetBranch &&
        pullRequest.headRefName = review.headBranch &&
        pullRequest.headRefOid = review.headRevision) = true
    · rw [if_pos hvalid, if_pos hvalid]
      rfl
    · rw [if_neg hvalid, if_neg hvalid]
      rfl

theorem checkContexts_bare (pullRequest : PullRequestPolicyWire) :
    checkContexts pullRequest.bare =
      (checkContexts pullRequest).map (Option.map CheckContextConnectionWire.bare) := by
  unfold checkContexts PullRequestPolicyWire.bare
  cases pullRequest.commits with
  | nil => rfl
  | cons commit commits =>
    cases commits with
    | nil => rfl
    | cons other commits => rfl

/-- A page is collected as without its contexts, which are added. -/
theorem collectPage_bare {first : RepositoryPolicyWire} {pageCount index : Nat}
    {page : QueryPageWire} {collected : Collected} :
    collectPage first review pageCount index page collected =
      (collectPage first.bare review pageCount index page.bare
        ⟨[], collected.complete, collected.cursors⟩).map fun after =>
          ⟨collected.contexts ++ page.contexts, after.complete, after.cursors⟩ := by
  unfold collectPage
  obtain ⟨held⟩ := page
  cases held with
  | none => rfl
  | some repository =>
    dsimp only [QueryPageWire.bare, Option.map_some]
    rw [requireIdentity_bare]
    cases hidentity : requireIdentity repository review with
    | error error => rfl
    | ok pullRequest =>
      have hholds := (requireIdentity_ok hidentity).2.holds
      cases hfirst : first.pullRequest with
      | none =>
        have hbare : first.bare.pullRequest = none := by
          rw [RepositoryPolicyWire.bare, hfirst]
          rfl
        rw [hbare]
        rfl
      | some firstPullRequest =>
        have hbare : first.bare.pullRequest = some firstPullRequest.bare := by
          rw [RepositoryPolicyWire.bare, hfirst]
          rfl
        rw [hbare]
        change (checkContexts pullRequest >>= fun rollup => _) =
          Except.map _ (checkContexts pullRequest.bare >>= fun rollup => _)
        rw [checkContexts_bare]
        cases hrollup : checkContexts pullRequest with
        | error error => rfl
        | ok rollup =>
          have hconnection : QueryPageWire.connection ⟨some repository⟩ = rollup := by
            rw [QueryPageWire.connection, hholds, Option.bind_some]
            exact checkContexts_ok hrollup
          have hcontexts : QueryPageWire.contexts ⟨some repository⟩ =
              (rollup.map CheckContextConnectionWire.nodes).getD [] := by
            rw [QueryPageWire.contexts, hconnection]
          rw [hcontexts]
          cases rollup with
          | none =>
            change Except.ok _ = Except.ok _
            rw [Option.map_none, Option.getD_none, List.append_nil]
            rfl
          | some connection => rfl

theorem contexts_bare (page : QueryPageWire) : page.bare.contexts = [] := by
  obtain ⟨repository⟩ := page
  cases repository with
  | none => rfl
  | some repository =>
    obtain ⟨name, pullRequest⟩ := repository
    cases pullRequest with
    | none => rfl
    | some pullRequest =>
      have hconnection : QueryPageWire.connection
          (QueryPageWire.bare ⟨some ⟨name, some pullRequest⟩⟩) =
            pullRequest.connection.map CheckContextConnectionWire.bare := by
        change pullRequest.bare.connection = _
        unfold PullRequestPolicyWire.connection PullRequestPolicyWire.bare
        cases pullRequest.commits with
        | nil => rfl
        | cons commit commits =>
          cases commits with
          | nil => rfl
          | cons other commits => rfl
      rw [QueryPageWire.contexts, hconnection]
      cases pullRequest.connection <;> rfl

/-- Nothing is collected from a page without contexts. -/
theorem contexts_of_collectPage_bare {first : RepositoryPolicyWire} {pageCount index : Nat}
    {page : QueryPageWire} {collected after : Collected}
    (h : collectPage first review pageCount index page.bare collected = .ok after) :
    after.contexts = collected.contexts := by
  rw [collectPage_bare, contexts_bare, List.append_nil] at h
  cases hbare : collectPage first.bare review pageCount index page.bare.bare
      ⟨[], collected.complete, collected.cursors⟩ with
  | error error =>
    rw [hbare] at h
    cases h
  | ok middle =>
    rw [hbare] at h
    cases h
    rfl

/-- Pages are collected as without their contexts, which are added. -/
theorem collectPages_bare {first : RepositoryPolicyWire} {pageCount index : Nat}
    {pages : List QueryPageWire} {collected : Collected} :
    collectPages first review pageCount index pages collected =
      (collectPages first.bare review pageCount index (pages.map QueryPageWire.bare)
        ⟨[], collected.complete, collected.cursors⟩).map fun after =>
          ⟨collected.contexts ++ pages.flatMap QueryPageWire.contexts, after.complete,
            after.cursors⟩ := by
  induction pages generalizing index collected with
  | nil =>
    rw [List.map_nil, List.flatMap_nil, List.append_nil]
    rfl
  | cons page pages ih =>
    rw [List.map_cons, collectPages, collectPages, collectPage_bare]
    cases hpage : collectPage first.bare review pageCount index page.bare
        ⟨[], collected.complete, collected.cursors⟩ with
    | error error => rfl
    | ok middle =>
      change collectPages first review pageCount (index + 1) pages _ =
        Except.map _ (collectPages first.bare review pageCount (index + 1) _ middle)
      obtain ⟨contexts, complete, cursors⟩ := middle
      obtain rfl : contexts = [] := contexts_of_collectPage_bare hpage
      rw [ih, List.flatMap_cons, ← List.append_assoc]

/-- `classify_policy` on pages without contexts and the contexts of all pages. -/
def classifyBare (pages : List QueryPageWire) (contexts : List CheckContextWire)
    (review : SourceReviewReceipt) : Except SourceDeliveryError PolicySnapshot :=
  match pages.head?.bind QueryPageWire.repository with
  | none => .error .rejected
  | some first => do
    let firstPullRequest ← requireIdentity first review
    let collected ← collectContexts pages review first
    classifyCollected firstPullRequest { collected with contexts := contexts }

theorem classifyPages_bare (pages : List QueryPageWire) :
    classifyPages pages review =
      classifyBare (pages.map QueryPageWire.bare) (pages.flatMap QueryPageWire.contexts)
        review := by
  have hhead : (pages.map QueryPageWire.bare).head?.bind QueryPageWire.repository =
      (pages.head?.bind QueryPageWire.repository).map RepositoryPolicyWire.bare := by
    cases pages with
    | nil => rfl
    | cons page pages => rfl
  unfold classifyPages classifyBare
  rw [hhead]
  cases pages.head?.bind QueryPageWire.repository with
  | none => rfl
  | some first =>
    dsimp only [Option.map_some]
    rw [requireIdentity_bare]
    cases requireIdentity first review with
    | error error => rfl
    | ok pullRequest =>
      change (collectContexts pages review first >>= fun collected => _) =
        (collectContexts (pages.map QueryPageWire.bare) review first.bare >>= fun collected => _)
      unfold collectContexts
      rw [collectPages_bare, List.length_map]
      cases collectPages first.bare review pages.length 0 (pages.map QueryPageWire.bare)
          ⟨[], true, []⟩ with
      | error error => rfl
      | ok collected => rfl

end

/-! ## Reordered answers -/

/-- Snapshots that lead to the same verdict, whatever the branch rules are. -/
structure PolicySnapshot.Alike (snapshot snapshot' : PolicySnapshot) : Prop where
  action : mergeAction snapshot = mergeAction snapshot'
  mergeable : snapshot.state.mergeable = snapshot'.state.mergeable
  observes : ∀ check, snapshot.observes check = snapshot'.observes check

theorem PolicySnapshot.Alike.refl (snapshot : PolicySnapshot) : snapshot.Alike snapshot :=
  ⟨rfl, rfl, fun _ => rfl⟩

theorem mergeAction_of_failed {snapshot : PolicySnapshot} {diagnostic : String}
    (h : snapshot.state = .openReview (.failed diagnostic)) :
    mergeAction snapshot = .ok (.complete .pending) := by
  unfold mergeAction
  rw [h]
  rfl

section

variable {contexts contexts' : List CheckContextWire}

theorem requiredContextIsMissing_perm (pullRequest : PullRequestPolicyWire)
    (h : contexts.Perm contexts') :
    requiredContextIsMissing pullRequest contexts =
      requiredContextIsMissing pullRequest contexts' := by
  have hmissing : requiredContextIsMissing pullRequest contexts = false ↔
      requiredContextIsMissing pullRequest contexts' = false := by
    rw [requiredContextIsMissing_eq_false, requiredContextIsMissing_eq_false]
    simp only [h.mem_iff]
  cases hleft : requiredContextIsMissing pullRequest contexts <;>
    cases hright : requiredContextIsMissing pullRequest contexts' <;>
    simp [hleft, hright] at hmissing ⊢

theorem classifySnapshot_perm (pullRequest : PullRequestPolicyWire)
    (h : contexts.Perm contexts') :
    (classifySnapshot pullRequest contexts).Alike (classifySnapshot pullRequest contexts') := by
  obtain ⟨hchecks, hfailures⟩ := classifyRequiredChecks_perm h
  by_cases hnone : (classifyRequiredChecks contexts).failures = []
  · have hsame : snapshotChecks pullRequest contexts = snapshotChecks pullRequest contexts' := by
      unfold snapshotChecks
      rw [requiredContextIsMissing_perm pullRequest h, hchecks]
    rw [classifySnapshot_of_unfailed hnone, classifySnapshot_of_unfailed (hfailures.mp hnone),
      hsame]
    refine ⟨rfl, rfl, fun check => ?_⟩
    unfold PolicySnapshot.observes readySnapshot
    exact ((h.filter _).map _).any_eq
  · have hstate := @classifySnapshot_of_failed pullRequest contexts hnone
    have hstate' := @classifySnapshot_of_failed pullRequest contexts' (mt hfailures.mpr hnone)
    refine ⟨?_, ?_, fun check => ?_⟩
    · rw [mergeAction_of_failed hstate, mergeAction_of_failed hstate']
    · have hfailed : ∀ diagnostic : String,
          (SourceReviewState.openReview (.failed diagnostic)).mergeable = false := fun _ => rfl
      rw [hstate, hstate', hfailed, hfailed]
    · unfold PolicySnapshot.observes classifySnapshot
      simp only [List.isEmpty_eq_false_iff.mpr hnone,
        List.isEmpty_eq_false_iff.mpr (mt hfailures.mpr hnone), Bool.not_false, if_true]

/-- Related results, or the same error. -/
def SameOutcome {α : Type} (R : α → α → Prop) :
    Except SourceDeliveryError α → Except SourceDeliveryError α → Prop
  | .ok a, .ok b => R a b
  | .error e, .error e' => e = e'
  | _, _ => False

theorem SameOutcome.refl {α : Type} {R : α → α → Prop} (hR : ∀ a, R a a)
    (x : Except SourceDeliveryError α) : SameOutcome R x x := by
  cases x with
  | ok a => exact hR a
  | error e => rfl

theorem classifyCollected_perm (pullRequest : PullRequestPolicyWire) {complete : Bool}
    {cursors : OrdSet String} (h : contexts.Perm contexts') :
    SameOutcome PolicySnapshot.Alike (classifyCollected pullRequest ⟨contexts, complete, cursors⟩)
      (classifyCollected pullRequest ⟨contexts', complete, cursors⟩) := by
  unfold classifyCollected
  cases complete with
  | false => exact PolicySnapshot.Alike.refl _
  | true =>
    cases terminalSnapshot pullRequest with
    | error error => rfl
    | ok terminal =>
      cases terminal with
      | some snapshot => exact PolicySnapshot.Alike.refl _
      | none => exact classifySnapshot_perm pullRequest h

theorem classifyBare_perm (pages : List QueryPageWire) (review : SourceReviewReceipt)
    (h : contexts.Perm contexts') :
    SameOutcome PolicySnapshot.Alike (classifyBare pages contexts review)
      (classifyBare pages contexts' review) := by
  unfold classifyBare
  cases pages.head?.bind QueryPageWire.repository with
  | none => rfl
  | some first =>
    dsimp only
    cases requireIdentity first review with
    | error error => rfl
    | ok pullRequest =>
      change SameOutcome _ (collectContexts pages review first >>= fun collected => _)
        (collectContexts pages review first >>= fun collected => _)
      cases collectContexts pages review first with
      | error error => rfl
      | ok collected => exact classifyCollected_perm pullRequest h

theorem classifyPolicy_reordered {pages pages' : List QueryPageWire}
    (h : ReorderedContexts pages pages') (review : SourceReviewReceipt) :
    SameOutcome PolicySnapshot.Alike (classifyPolicy (.ok pages) review)
      (classifyPolicy (.ok pages') review) := by
  change SameOutcome _ (classifyPages pages review) (classifyPages pages' review)
  rw [classifyPages_bare, classifyPages_bare, h.bare]
  exact classifyBare_perm _ review h.contexts

end

/-- The same branch rules in another order, on any pages. -/
structure ReorderedRules (pages pages' : List (List BranchRuleWire)) : Prop where
  rules : pages.flatten.Perm pages'.flatten
  empty : pages = [] ↔ pages' = []

/-- Alike snapshots have the same verdict under reordered rules. -/
theorem applyBranchRules_reordered {snapshot snapshot' : PolicySnapshot}
    (hsnapshot : snapshot.Alike snapshot') {pages pages' : List (List BranchRuleWire)}
    (h : ReorderedRules pages pages') :
    (snapshot.applyBranchRules (.ok pages) >>= mergeAction) =
      (snapshot'.applyBranchRules (.ok pages') >>= mergeAction) := by
  have hchecks : (pages.flatten.flatMap BranchRuleWire.checks).Perm
      (pages'.flatten.flatMap BranchRuleWire.checks) := h.rules.flatMap_right _
  change ((if pages.isEmpty then _ else _) >>= mergeAction) =
    ((if pages'.isEmpty then _ else _) >>= mergeAction)
  by_cases hempty : pages = []
  · rw [if_pos (List.isEmpty_iff.mpr hempty), if_pos (List.isEmpty_iff.mpr (h.empty.mp hempty))]
  · have hempty' : pages' ≠ [] := mt h.empty.mpr hempty
    rw [if_neg (by rwa [List.isEmpty_iff]), if_neg (by rwa [List.isEmpty_iff]), applyChecks_eq,
      applyChecks_eq, hchecks.any_eq, hchecks.all_eq, funext hsnapshot.observes]
    by_cases hblank : ((pages'.flatten.flatMap BranchRuleWire.checks).any
        fun check => isBlank check.context) = true
    · rw [if_pos hblank, if_pos hblank]
    · rw [if_neg hblank, if_neg hblank]
      by_cases hall : (pages'.flatten.flatMap BranchRuleWire.checks).all snapshot'.observes = true
      · rw [if_pos hall, if_pos hall]
        exact hsnapshot.action
      · rw [if_neg hall, if_neg hall]
        rfl

/-- One answer, or two answers of which one is a reordering of the other. -/
def SameAnswer {α : Type} (R : α → α → Prop)
    (answer answer' : Except SourceDeliveryError (Except String α)) : Prop :=
  answer = answer' ∨ ∃ a a', answer = .ok (.ok a) ∧ answer' = .ok (.ok a') ∧ R a a'

/-- Answers with contexts and rules in another order. -/
structure PolicyAnswers.Reordered (answers answers' : PolicyAnswers) : Prop where
  policy : SameAnswer ReorderedContexts answers.policy answers'.policy
  branchRules : SameAnswer ReorderedRules answers.branchRules answers'.branchRules

/-- Alike snapshots have the same verdict under reordered answers about the branch. -/
theorem readBranchRules_reordered {snapshot snapshot' : PolicySnapshot}
    (hsnapshot : snapshot.Alike snapshot') (review : SourceReviewReceipt)
    {answer answer' : Except SourceDeliveryError (Except String (List (List BranchRuleWire)))}
    (h : SameAnswer ReorderedRules answer answer') :
    (snapshot.readBranchRules answer review >>= mergeAction) =
      (snapshot'.readBranchRules answer' review >>= mergeAction) := by
  unfold PolicySnapshot.readBranchRules
  by_cases hmergeable : snapshot.state.mergeable = true
  · have hmergeable' : snapshot'.state.mergeable = true := by
      rwa [hsnapshot.mergeable] at hmergeable
    rw [if_pos hmergeable, if_pos hmergeable']
    by_cases hbranch : (!validBranch review.targetBranch) = true
    · rw [if_pos hbranch, if_pos hbranch]
    · rw [if_neg hbranch, if_neg hbranch]
      rcases h with rfl | ⟨pages, pages', rfl, rfl, hpages⟩
      · cases answer with
        | error error => rfl
        | ok response =>
          cases response with
          | error error => rfl
          | ok pages =>
            exact applyBranchRules_reordered hsnapshot ⟨List.Perm.refl _, Iff.rfl⟩
      · exact applyBranchRules_reordered hsnapshot hpages
  · have hmergeable' : ¬ snapshot'.state.mergeable = true := by
      rwa [hsnapshot.mergeable] at hmergeable
    rw [if_neg hmergeable, if_neg hmergeable']
    exact hsnapshot.action

/-- Snapshots of one kind, or one error, have the same verdict. -/
theorem verdict_reordered {outcome outcome' : Except SourceDeliveryError PolicySnapshot}
    (houtcome : SameOutcome PolicySnapshot.Alike outcome outcome') (review : SourceReviewReceipt)
    {answer answer' : Except SourceDeliveryError (Except String (List (List BranchRuleWire)))}
    (h : SameAnswer ReorderedRules answer answer') :
    ((outcome >>= fun snapshot => snapshot.readBranchRules answer review) >>= mergeAction) =
      ((outcome' >>= fun snapshot => snapshot.readBranchRules answer' review) >>= mergeAction) := by
  cases outcome with
  | error error =>
    cases outcome' with
    | error error' =>
      cases houtcome
      rfl
    | ok snapshot' => exact houtcome.elim
  | ok snapshot =>
    cases outcome' with
    | error error' => exact houtcome.elim
    | ok snapshot' => exact readBranchRules_reordered houtcome review h

theorem mergeVerdict_reordered {answers answers' : PolicyAnswers}
    (h : answers.Reordered answers') (review : SourceReviewReceipt) :
    mergeVerdict answers review = mergeVerdict answers' review := by
  obtain ⟨policy, branchRules⟩ := answers
  obtain ⟨policy', branchRules'⟩ := answers'
  obtain ⟨hpolicy, hrules⟩ := h
  dsimp only at hpolicy hrules
  unfold mergeVerdict policySnapshot
  by_cases hquery : (!validQuery review) = true
  · rw [if_pos hquery, if_pos hquery]
  · rw [if_neg hquery, if_neg hquery]
    rcases hpolicy with rfl | ⟨pages, pages', rfl, rfl, hpages⟩
    · cases policy with
      | error error => rfl
      | ok response =>
        exact verdict_reordered (SameOutcome.refl PolicySnapshot.Alike.refl _) review hrules
    · exact verdict_reordered (classifyPolicy_reordered hpages review) review hrules

end Zeroshot.Github
