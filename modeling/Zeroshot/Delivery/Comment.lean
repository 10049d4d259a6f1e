import Zeroshot.Lib.Machine

set_option autoImplicit false

/-!
# Write-once comment publication

Publishers of one comment share a publication record. `publish` loads it, scans the discussion for
the comment, and creates the comment only after it has moved the record to `Attempted`; a refusal
that is certain moves the record back to `Ready`, and whoever sees the comment moves it to
`Confirmed`. The record names no owner, so what keeps creates apart is the point each publisher has
reached: at most one publisher stands between its authorization and the answer to its create.

All publishers have the same record but for its status, so the record is its status here. A
publisher may stop at every point: on an error, when it is cancelled, when its process dies. A
compare-and-set that goes on after its publisher was cancelled is a step taken before the stop.
-/

namespace Zeroshot.Delivery

open Machine

/-! ## Publishers -/

/-- `PublicationStatus`, with the comment it confirms. -/
inductive PublicationStatus (Comment : Type)
  | ready
  | attempted
  | confirmed (comment : Comment)
  deriving DecidableEq, Repr

/-- The answer to `create_comment`. -/
inductive CreateAnswer (Comment : Type)
  | ok (comment : Comment)
  | nonpublication (authenticationFailed : Bool)
  | uncertain
  deriving DecidableEq, Repr

/-- What became of an issued create. -/
inductive CreateStatus
  | unresolved
  | published
  | rejected
  deriving DecidableEq, Repr

/-- The next step of a publisher. -/
inductive PublisherPoint (Comment : Type)
  /-- `load` -/
  | start
  /-- `reconcile` in `settle_publication` -/
  | scanning (previous : Option (PublicationStatus Comment))
  /-- `confirm` -/
  | confirming (previous : Option (PublicationStatus Comment)) (comment : Comment)
  /-- `authorize_create` -/
  | authorizing (previous : Option (PublicationStatus Comment))
  /-- `create_comment` -/
  | armed
  /-- waiting for the answer to a create -/
  | creating (create : Nat)
  /-- `record_nonpublication` -/
  | refused (authenticationFailed : Bool)
  /-- `retry_authentication` -/
  | rearming
  /-- `reconcile_uncertain` -/
  | uncertain
  | done
  deriving DecidableEq, Repr

/-- The record, the publishers and the creates issued so far. -/
structure Publication (ι Comment : Type) where
  slot : Option (PublicationStatus Comment)
  points : ι → PublisherPoint Comment
  creates : List CreateStatus

inductive PublicationEvent (ι Comment : Type)
  | load (i : ι)
  | scan (i : ι) (found : Option Comment)
  | swap (i : ι)
  | create (i : ι)
  | answer (i : ι) (answer : CreateAnswer Comment)
  | stop (i : ι)
  | publish (create : Nat)
  deriving DecidableEq, Repr

/-- When a forge may report the comment, in a list or as an answer: always, or only once a create
has published it. -/
inductive ForgeReports
  | anything
  | published
  deriving DecidableEq, Repr

section

variable {ι Comment : Type} [DecidableEq ι] [DecidableEq Comment]

namespace Publication

def move (s : Publication ι Comment) (i : ι) (point : PublisherPoint Comment) :
    Publication ι Comment :=
  { s with points := Function.update s.points i point }

/-- `compare_and_set`, and where the publisher goes when it succeeds; a conflict ends it. -/
def compareAndSet (s : Publication ι Comment) (i : ι)
    (expected : Option (PublicationStatus Comment)) (next : PublicationStatus Comment)
    (point : PublisherPoint Comment) : Publication ι Comment :=
  if s.slot = expected then { s.move i point with slot := some next } else s.move i .done

end Publication

/-- After `load`: a confirmed record is reused. -/
def afterLoad (slot : Option (PublicationStatus Comment)) : PublisherPoint Comment :=
  match slot with
  | some (.confirmed _) => .done
  | previous => .scanning previous

/-- After a scan without a match: an attempt of unknown outcome forbids another. -/
def afterScan (previous : Option (PublicationStatus Comment)) : PublisherPoint Comment :=
  match previous with
  | some .attempted => .done
  | previous => .authorizing previous

def reportAllowed (reports : ForgeReports) (creates : List CreateStatus)
    (comment : Option Comment) : Bool :=
  match reports with
  | .anything => true
  | .published => comment.isNone || creates.contains .published

/-- One step of a publisher, or of the forge. -/
def publicationStep (reports : ForgeReports) :
    PublicationEvent ι Comment → Publication ι Comment → Option (Publication ι Comment)
  | .load i, s =>
    match s.points i with
    | .start => some (s.move i (afterLoad s.slot))
    | _ => none
  | .scan i found, s =>
    if reportAllowed reports s.creates found then
      match s.points i, found with
      | .scanning previous, some comment => some (s.move i (.confirming previous comment))
      | .scanning previous, none => some (s.move i (afterScan previous))
      | .uncertain, some comment => some (s.move i (.confirming (some .attempted) comment))
      | .uncertain, none => some (s.move i .done)
      | _, _ => none
    else none
  | .swap i, s =>
    match s.points i with
    | .confirming previous comment => some (s.compareAndSet i previous (.confirmed comment) .done)
    | .authorizing previous => some (s.compareAndSet i previous .attempted .armed)
    | .refused authenticationFailed =>
      some (s.compareAndSet i (some .attempted) .ready
        (if authenticationFailed then .rearming else .done))
    | .rearming => some (s.compareAndSet i (some .ready) .attempted .armed)
    | _ => none
  | .create i, s =>
    match s.points i with
    | .armed =>
      some { s.move i (.creating s.creates.length) with creates := s.creates ++ [.unresolved] }
    | _ => none
  | .answer i answer, s =>
    match s.points i, answer with
    | .creating _, .ok comment =>
      if reportAllowed reports s.creates (some comment) then
        some (s.move i (.confirming (some .attempted) comment))
      else none
    | .creating create, .nonpublication authenticationFailed =>
      -- A definite refusal means that nothing was published, and nothing will be.
      if s.creates[create]? = some .unresolved then
        some { s.move i (.refused authenticationFailed) with
          creates := s.creates.set create .rejected }
      else none
    | .creating _, .uncertain => some (s.move i .uncertain)
    | _, _ => none
  | .stop i, s => some (s.move i .done)
  | .publish create, s =>
    if s.creates[create]? = some .unresolved then
      some { s with creates := s.creates.set create .published }
    else none

/-- No record yet, nothing created. -/
def Publication.initial : Publication ι Comment := ⟨none, fun _ => .start, []⟩

end

/-! ## Ownership -/

section

variable {ι Comment : Type}

/-- Between an authorization and the answer to its create has been recorded. -/
def PublisherPoint.Owner : PublisherPoint Comment → Prop
  | .armed | .creating _ | .refused _ => True
  | _ => False

/-- A record a create may be authorized from. -/
def Open (slot : Option (PublicationStatus Comment)) : Prop := slot = none ∨ slot = some .ready

/-- What the point remembers of the record is something it can go on from. -/
def PublisherPoint.Sound : PublisherPoint Comment → Prop
  | .scanning previous | .confirming previous _ => ∀ comment, previous ≠ some (.confirmed comment)
  | .authorizing previous => Open previous
  | _ => True

/-- Every create but at most the named one was rejected. -/
def RejectedBut (creates : List CreateStatus) (create : Nat) : Prop :=
  ∀ k status, creates[k]? = some status → k ≠ create → status = .rejected

def AllRejected (creates : List CreateStatus) : Prop :=
  ∀ status ∈ creates, status = CreateStatus.rejected

/-- At most one owner; while a create may be authorized there is none and every create was rejected;
an owner that has no create of its own in the air knows the same. -/
structure Inv (s : Publication ι Comment) : Prop where
  sound : ∀ i, (s.points i).Sound
  owner : ∀ i j, (s.points i).Owner → (s.points j).Owner → i = j
  unowned : Open s.slot → ∀ i, ¬ (s.points i).Owner
  settled : Open s.slot → AllRejected s.creates
  armed : ∀ i, s.points i = .armed → AllRejected s.creates
  refused : ∀ i failed, s.points i = .refused failed → AllRejected s.creates
  creating : ∀ i create, s.points i = .creating create → RejectedBut s.creates create
  single : ∃ create, RejectedBut s.creates create

theorem AllRejected.but {creates : List CreateStatus} (h : AllRejected creates) (create : Nat) :
    RejectedBut creates create :=
  fun _ status hk _ => h status (List.mem_of_getElem? hk)

theorem not_open_attempted : ¬ Open (some (.attempted : PublicationStatus Comment)) := by
  rintro (h | h) <;> cases h

theorem not_open_confirmed (comment : Comment) : ¬ Open (some (.confirmed comment)) := by
  rintro (h | h) <;> cases h

theorem afterLoad_sound (slot : Option (PublicationStatus Comment)) : (afterLoad slot).Sound := by
  rcases slot with _ | _ | _ | comment
  · exact fun _ h => by cases h
  · exact fun _ h => by cases h
  · exact fun _ h => by cases h
  · trivial

theorem afterLoad_not_owner (slot : Option (PublicationStatus Comment)) :
    ¬ (afterLoad slot).Owner := by
  rcases slot with _ | _ | _ | comment <;> exact id

theorem afterScan_sound {previous : Option (PublicationStatus Comment)}
    (h : ∀ comment, previous ≠ some (.confirmed comment)) : (afterScan previous).Sound := by
  rcases previous with _ | _ | _ | comment
  · exact .inl rfl
  · exact .inr rfl
  · trivial
  · exact absurd rfl (h comment)

theorem afterScan_not_owner (previous : Option (PublicationStatus Comment)) :
    ¬ (afterScan previous).Owner := by
  rcases previous with _ | _ | _ | comment <;> exact id

variable {s : Publication ι Comment}

/-- The others own nothing when one does. -/
theorem Inv.others (hs : Inv s) {i : ι} (hi : (s.points i).Owner) (j : ι) (hj : j ≠ i) :
    ¬ (s.points j).Owner :=
  fun hown => hj (hs.owner j i hown hi)

theorem Inv.not_open (hs : Inv s) {i : ι} (hi : (s.points i).Owner) : ¬ Open s.slot :=
  fun h => hs.unowned h i hi

variable [DecidableEq ι]

theorem points_move (i j : ι) (point : PublisherPoint Comment) :
    (s.move i point).points j = if j = i then point else s.points j := by
  simp [Publication.move, Function.update_apply]

/-- A publisher that moves to a point that owns nothing, while the record changes only from a state
that allows no create, or not at all. -/
theorem Inv.leave (hs : Inv s) (i : ι) {point : PublisherPoint Comment}
    {slot : Option (PublicationStatus Comment)} (hsound : point.Sound) (howner : ¬ point.Owner)
    (hopen : Open slot → (∀ j, j ≠ i → ¬ (s.points j).Owner) ∧ AllRejected s.creates) :
    Inv { s.move i point with slot } := by
  have hpoints : ∀ j, ({ s.move i point with slot } : Publication ι Comment).points j =
      if j = i then point else s.points j := fun j => points_move i j point
  have hcases : ∀ j q, ({ s.move i point with slot } : Publication ι Comment).points j = q →
      q.Owner → s.points j = q := by
    intro j q hq hown
    rw [hpoints] at hq
    split at hq
    · exact absurd (hq ▸ hown) howner
    · exact hq
  refine ⟨fun j => ?_, fun j k hj hk => ?_, fun h j hj => ?_, fun h => (hopen h).2,
    fun j hj => hs.armed j (hcases j _ hj trivial),
    fun j failed hj => hs.refused j failed (hcases j _ hj trivial),
    fun j create hj => hs.creating j create (hcases j _ hj trivial), hs.single⟩
  · rw [hpoints]
    split
    · exact hsound
    · exact hs.sound j
  · exact hs.owner j k (hcases j _ rfl hj ▸ hj) (hcases k _ rfl hk ▸ hk)
  · have hold := hcases j _ rfl hj
    rw [hpoints] at hj hold
    split at hj
    · exact howner hj
    · exact (hopen h).1 j ‹_› hj

/-- A publisher that moves on without touching the record. -/
theorem Inv.pass (hs : Inv s) (i : ι) {point : PublisherPoint Comment} (hsound : point.Sound)
    (howner : ¬ point.Owner) : Inv (s.move i point) :=
  hs.leave i hsound howner fun h => ⟨fun j _ => hs.unowned h j, hs.settled h⟩

/-- A publisher that moves to, or stays at, a point that owns the record. -/
theorem Inv.own (hs : Inv s) (i : ι) {point : PublisherPoint Comment}
    {slot : Option (PublicationStatus Comment)} {creates : List CreateStatus}
    (hsound : point.Sound) (hothers : ∀ j, j ≠ i → ¬ (s.points j).Owner) (hslot : ¬ Open slot)
    (harmed : point = .armed → AllRejected creates)
    (hrefused : ∀ failed, point = .refused failed → AllRejected creates)
    (hcreating : ∀ create, point = .creating create → RejectedBut creates create)
    (hsingle : ∃ create, RejectedBut creates create) :
    Inv { s.move i point with slot, creates } := by
  have hpoints : ∀ j, ({ s.move i point with slot, creates } : Publication ι Comment).points j =
      if j = i then point else s.points j := fun j => points_move i j point
  have hcases : ∀ j q,
      ({ s.move i point with slot, creates } : Publication ι Comment).points j = q →
        q.Owner → j = i ∧ point = q := by
    intro j q hq hown
    rw [hpoints] at hq
    split at hq
    · exact ⟨‹_›, hq⟩
    · exact absurd (hq ▸ hown) (hothers j ‹_›)
  refine ⟨fun j => ?_, fun j k hj hk => ?_, fun h => absurd h hslot, fun h => absurd h hslot,
    fun j hj => harmed (hcases j _ hj trivial).2,
    fun j failed hj => hrefused failed (hcases j _ hj trivial).2,
    fun j create hj => hcreating create (hcases j _ hj trivial).2, hsingle⟩
  · rw [hpoints]
    split
    · exact hsound
    · exact hs.sound j
  · exact (hcases j _ rfl hj).1.trans (hcases k _ rfl hk).1.symm

/-- A publisher that is authorized to create. -/
theorem Inv.arm (hs : Inv s) (i : ι) (h : Open s.slot) :
    Inv { s.move i .armed with slot := some .attempted } := by
  have hrejected := hs.settled h
  exact hs.own i trivial (fun j _ => hs.unowned h j) not_open_attempted (fun _ => hrejected)
    (fun _ _ => hrejected) (fun create _ => hrejected.but create) hs.single

/-- A publisher that issues its create. -/
theorem Inv.issue (hs : Inv s) {i : ι} (hi : s.points i = .armed) :
    Inv { s.move i (.creating s.creates.length) with creates := s.creates ++ [.unresolved] } := by
  have howner : (s.points i).Owner := hi ▸ trivial
  have hbut : RejectedBut (s.creates ++ [.unresolved]) s.creates.length := by
    intro k status hk hne
    rcases Nat.lt_or_ge k s.creates.length with hlt | hge
    · rw [List.getElem?_append_left hlt] at hk
      exact hs.armed i hi status (List.mem_of_getElem? hk)
    · rw [List.getElem?_append_right hge, List.getElem?_singleton] at hk
      have hzero : k - s.creates.length ≠ 0 := by omega
      rw [if_neg hzero] at hk
      cases hk
  refine hs.own i trivial (hs.others howner) (hs.not_open howner) ?_ ?_ ?_ ⟨_, hbut⟩
  · intro h
    cases h
  · intro failed h
    cases h
  · intro create h
    cases h
    exact hbut

/-- The only create that is not rejected, once it is. -/
theorem RejectedBut.reject {creates : List CreateStatus} {create : Nat}
    (h : RejectedBut creates create) : AllRejected (creates.set create .rejected) := by
  intro status hmem
  obtain ⟨k, hk⟩ := List.getElem?_of_mem hmem
  rw [List.getElem?_set] at hk
  split at hk
  · split at hk
    · exact (Option.some.inj hk).symm
    · cases hk
  · exact h k status hk fun heq => by simp_all

theorem RejectedBut.set {creates : List CreateStatus} {create : Nat}
    (h : RejectedBut creates create) (status : CreateStatus) :
    RejectedBut (creates.set create status) create := by
  intro k status' hk hne
  rw [List.getElem?_set_ne hne.symm] at hk
  exact h k status' hk hne

/-- A publisher that learns that its create was rejected. -/
theorem Inv.refuse (hs : Inv s) {i : ι} {create : Nat} (hi : s.points i = .creating create)
    (failed : Bool) :
    Inv { s.move i (.refused failed) with creates := s.creates.set create .rejected } := by
  have howner : (s.points i).Owner := hi ▸ trivial
  have hrejected := (hs.creating i create hi).reject
  exact hs.own i trivial (hs.others howner) (hs.not_open howner) (fun _ => hrejected)
    (fun _ _ => hrejected) (fun create _ => hrejected.but create) ⟨create, hrejected.but create⟩

omit [DecidableEq ι] in
/-- The forge publishes a create that is still in the air. -/
theorem Inv.publish (hs : Inv s) {create : Nat} (hcreate : s.creates[create]? = some .unresolved) :
    Inv { s with creates := s.creates.set create .published } := by
  have hnot : ¬ AllRejected s.creates := by
    intro h
    have hstatus := h _ (List.mem_of_getElem? hcreate)
    cases hstatus
  have hkeep : ∀ k, RejectedBut s.creates k → RejectedBut (s.creates.set create .published) k := by
    intro k hk
    have heq : create = k := by
      by_contra hne
      have hstatus := hk create _ hcreate hne
      cases hstatus
    subst heq
    exact hk.set _
  obtain ⟨k, hk⟩ := hs.single
  exact ⟨hs.sound, hs.owner, hs.unowned, fun h => absurd (hs.settled h) hnot,
    fun i hi => absurd (hs.armed i hi) hnot,
    fun i failed hi => absurd (hs.refused i failed hi) hnot,
    fun i k hi => hkeep k (hs.creating i k hi), k, hkeep k hk⟩

/-! ## Steps -/

variable [DecidableEq Comment]

theorem Inv.swap (hs : Inv s) {i : ι} {t : Publication ι Comment} {reports : ForgeReports}
    (h : publicationStep reports (.swap i) s = some t) : Inv t := by
  have hsound := hs.sound i
  cases hi : s.points i with
  | start | scanning | armed | creating | uncertain | done => simp [publicationStep, hi] at h
  | confirming previous comment =>
    simp only [publicationStep, hi, Publication.compareAndSet] at h
    cases h
    split
    · exact hs.leave i trivial id fun h => absurd h (not_open_confirmed comment)
    · exact hs.pass i trivial id
  | authorizing previous =>
    simp only [publicationStep, hi, Publication.compareAndSet] at h
    cases h
    rw [hi] at hsound
    split
    · rename_i hslot
      exact hs.arm i (hslot ▸ hsound)
    · exact hs.pass i trivial id
  | refused failed =>
    simp only [publicationStep, hi, Publication.compareAndSet] at h
    cases h
    have howner : (s.points i).Owner := hi ▸ trivial
    split
    · refine hs.leave i ?_ ?_ fun _ => ⟨hs.others howner, hs.refused i failed hi⟩
      · cases failed <;> trivial
      · cases failed <;> exact id
    · exact hs.pass i trivial id
  | rearming =>
    simp only [publicationStep, hi, Publication.compareAndSet] at h
    cases h
    split
    · rename_i hslot
      exact hs.arm i (.inr hslot)
    · exact hs.pass i trivial id

/-- **Every step keeps the invariant.** -/
theorem Inv.step (hs : Inv s) {event : PublicationEvent ι Comment} {t : Publication ι Comment}
    {reports : ForgeReports} (h : publicationStep reports event s = some t) : Inv t := by
  cases event with
  | load i =>
    cases hi : s.points i <;> simp only [publicationStep, hi] at h <;> cases h
    exact hs.pass i (afterLoad_sound s.slot) (afterLoad_not_owner s.slot)
  | scan i found =>
    have hsound := hs.sound i
    simp only [publicationStep] at h
    split at h
    · cases hi : s.points i <;> cases found <;> simp only [hi] at h <;> cases h
      · rw [hi] at hsound
        exact hs.pass i (afterScan_sound hsound) (afterScan_not_owner _)
      · rw [hi] at hsound
        exact hs.pass i hsound id
      · exact hs.pass i trivial id
      · refine hs.pass i ?_ id
        intro comment heq
        cases heq
    · cases h
  | swap i => exact hs.swap h
  | create i =>
    cases hi : s.points i <;> simp only [publicationStep, hi] at h <;> cases h
    exact hs.issue hi
  | answer i answer =>
    cases hi : s.points i <;> cases answer <;> simp only [publicationStep, hi] at h <;>
      try cases h
    · split at h
      · cases h
        refine hs.pass i ?_ id
        intro comment heq
        cases heq
      · cases h
    · split at h
      · cases h
        exact hs.refuse hi _
      · cases h
    · exact hs.pass i trivial id
  | stop i =>
    cases h
    exact hs.pass i trivial id
  | publish create =>
    simp only [publicationStep] at h
    split at h
    · cases h
      exact hs.publish ‹_›
    · cases h

theorem inv_run {reports : ForgeReports} {events : List (PublicationEvent ι Comment)}
    (h : run (publicationStep reports) events .initial = some s) : Inv s := by
  refine run_invariant (fun event s t hstep hs => Inv.step hs hstep) h ?_
  refine ⟨fun _ => trivial, fun _ _ h => h.elim, fun _ _ => id, fun _ _ h => ?_, ?_, ?_, ?_, 0, ?_⟩
  · cases h
  · intro i hi
    cases hi
  · intro i failed hi
    cases hi
  · intro i create hi
    cases hi
  · intro k status hk
    cases hk

/-! ## The record -/

/-- The moves of the record. -/
inductive SlotMove : Option (PublicationStatus Comment) → Option (PublicationStatus Comment) → Prop
  | stay (slot : Option (PublicationStatus Comment)) : SlotMove slot slot
  | attempt {slot : Option (PublicationStatus Comment)} (h : Open slot) :
      SlotMove slot (some .attempted)
  | rearm : SlotMove (some .attempted) (some .ready)
  | confirm {slot : Option (PublicationStatus Comment)} (h : Open slot ∨ slot = some .attempted)
      (comment : Comment) : SlotMove slot (some (.confirmed comment))

theorem compareAndSet_slot (i : ι) {expected : Option (PublicationStatus Comment)}
    {next : PublicationStatus Comment} (point : PublisherPoint Comment)
    (h : SlotMove expected (some next)) :
    SlotMove s.slot (s.compareAndSet i expected next point).slot := by
  unfold Publication.compareAndSet
  split
  · rename_i hslot
    exact hslot ▸ h
  · exact .stay s.slot

theorem slotMove_step (hs : Inv s) {event : PublicationEvent ι Comment} {t : Publication ι Comment}
    {reports : ForgeReports} (h : publicationStep reports event s = some t) :
    SlotMove s.slot t.slot := by
  cases event with
  | swap i =>
    have hsound := hs.sound i
    cases hi : s.points i with
    | start | scanning | armed | creating | uncertain | done => simp [publicationStep, hi] at h
    | confirming previous comment =>
      simp only [publicationStep, hi] at h
      cases h
      rw [hi] at hsound
      refine compareAndSet_slot i _ (.confirm ?_ comment)
      rcases previous with _ | _ | _ | other
      · exact .inl (.inl rfl)
      · exact .inl (.inr rfl)
      · exact .inr rfl
      · exact absurd rfl (hsound other)
    | authorizing previous =>
      simp only [publicationStep, hi] at h
      cases h
      rw [hi] at hsound
      exact compareAndSet_slot i _ (.attempt hsound)
    | refused failed =>
      simp only [publicationStep, hi] at h
      cases h
      exact compareAndSet_slot i _ .rearm
    | rearming =>
      simp only [publicationStep, hi] at h
      cases h
      exact compareAndSet_slot i _ (.attempt (.inr rfl))
  | load i =>
    cases hi : s.points i <;> simp only [publicationStep, hi] at h <;> cases h
    exact .stay _
  | scan i found =>
    simp only [publicationStep] at h
    split at h
    · cases hi : s.points i <;> cases found <;> simp only [hi] at h <;> cases h <;> exact .stay _
    · cases h
  | create i =>
    cases hi : s.points i <;> simp only [publicationStep, hi] at h <;> cases h
    exact .stay _
  | answer i answer =>
    cases hi : s.points i <;> cases answer <;> simp only [publicationStep, hi] at h <;>
      try cases h
    · split at h <;> cases h
      exact .stay _
    · split at h <;> cases h
      exact .stay _
    · exact .stay _
  | stop i =>
    cases h
    exact .stay _
  | publish create =>
    simp only [publicationStep] at h
    split at h <;> cases h
    exact .stay _

/-! ## Forges that report what they published -/

/-- Whoever is about to confirm, or has confirmed, has seen a published create. -/
structure Seen (s : Publication ι Comment) : Prop where
  confirming : ∀ i previous comment, s.points i = .confirming previous comment →
    .published ∈ s.creates
  confirmed : ∀ comment, s.slot = some (.confirmed comment) → .published ∈ s.creates

omit [DecidableEq Comment] in
theorem Seen.pass (hs : Seen s) (i : ι) {point : PublisherPoint Comment}
    {slot : Option (PublicationStatus Comment)} {creates : List CreateStatus}
    (hcreates : .published ∈ s.creates → .published ∈ creates)
    (hpoint : ∀ previous comment, point = .confirming previous comment → .published ∈ creates)
    (hslot : ∀ comment, slot = some (.confirmed comment) → .published ∈ creates) :
    Seen { s.move i point with slot, creates } where
  confirming j previous comment hj := by
    have hpoints := points_move (s := s) i j point
    rw [show (({ s.move i point with slot, creates } : Publication ι Comment).points j) =
      (s.move i point).points j from rfl, hpoints] at hj
    split at hj
    · exact hpoint previous comment hj
    · exact hcreates (hs.confirming j previous comment hj)
  confirmed := hslot

omit [DecidableEq Comment] in
/-- A publisher that moves to a point where it is not about to confirm. -/
theorem Seen.move (hs : Seen s) (i : ι) {point : PublisherPoint Comment}
    (hpoint : ∀ previous comment, point ≠ .confirming previous comment) : Seen (s.move i point) :=
  hs.pass i id (fun previous comment h => absurd h (hpoint previous comment)) hs.confirmed

omit [DecidableEq Comment] in
theorem published_of_report {creates : List CreateStatus} {comment : Comment}
    (h : reportAllowed .published creates (some comment) = true) : .published ∈ creates := by
  simpa [reportAllowed] using h

theorem published_set {creates : List CreateStatus} {create : Nat} {status : CreateStatus}
    (h : CreateStatus.published ∈ creates) (hcreate : creates[create]? = some .unresolved) :
    CreateStatus.published ∈ creates.set create status := by
  obtain ⟨k, hk⟩ := List.getElem?_of_mem h
  have hne : create ≠ k := by
    rintro rfl
    rw [hcreate] at hk
    cases hk
  exact List.mem_of_getElem? ((List.getElem?_set_ne hne).trans hk)

theorem Seen.compareAndSet (hs : Seen s) (i : ι) (expected : Option (PublicationStatus Comment))
    {next : PublicationStatus Comment} {point : PublisherPoint Comment}
    (hpoint : ∀ previous comment, point ≠ .confirming previous comment)
    (hnext : ∀ comment, next = .confirmed comment → .published ∈ s.creates) :
    Seen (s.compareAndSet i expected next point) := by
  unfold Publication.compareAndSet
  split
  · refine hs.pass i id (fun previous comment h => absurd h (hpoint previous comment)) ?_
    intro comment heq
    exact hnext comment (Option.some.inj heq)
  · exact hs.move i fun previous comment h => by cases h

theorem Seen.step (hs : Seen s) {event : PublicationEvent ι Comment} {t : Publication ι Comment}
    (h : publicationStep .published event s = some t) : Seen t := by
  cases event with
  | load i =>
    cases hi : s.points i <;> simp only [publicationStep, hi] at h <;> cases h
    refine hs.move i fun previous comment heq => ?_
    unfold afterLoad at heq
    split at heq <;> cases heq
  | scan i found =>
    simp only [publicationStep] at h
    split at h
    · rename_i hreport
      cases hi : s.points i <;> cases found <;> simp only [hi] at h <;> cases h
      · refine hs.move i fun previous comment heq => ?_
        unfold afterScan at heq
        split at heq <;> cases heq
      · exact hs.pass i id (fun _ _ _ => published_of_report hreport) hs.confirmed
      · exact hs.move i fun previous comment heq => by cases heq
      · exact hs.pass i id (fun _ _ _ => published_of_report hreport) hs.confirmed
    · cases h
  | swap i =>
    cases hi : s.points i with
    | start | scanning | armed | creating | uncertain | done => simp [publicationStep, hi] at h
    | confirming previous comment =>
      simp only [publicationStep, hi] at h
      cases h
      refine hs.compareAndSet i previous (fun _ _ heq => ?_) fun _ _ => ?_
      · cases heq
      · exact hs.confirming i previous comment hi
    | authorizing previous =>
      simp only [publicationStep, hi] at h
      cases h
      refine hs.compareAndSet i previous (fun _ _ heq => ?_) fun _ heq => ?_ <;> cases heq
    | refused failed =>
      simp only [publicationStep, hi] at h
      cases h
      refine hs.compareAndSet i _ (fun _ _ heq => ?_) fun _ heq => ?_
      · cases failed <;> cases heq
      · cases heq
    | rearming =>
      simp only [publicationStep, hi] at h
      cases h
      refine hs.compareAndSet i _ (fun _ _ heq => ?_) fun _ heq => ?_ <;> cases heq
  | create i =>
    cases hi : s.points i <;> simp only [publicationStep, hi] at h <;> cases h
    refine hs.pass i (fun hmem => List.mem_append_left _ hmem) (fun _ _ heq => ?_) ?_
    · cases heq
    · exact fun comment heq => List.mem_append_left _ (hs.confirmed comment heq)
  | answer i answer =>
    cases hi : s.points i <;> cases answer <;> simp only [publicationStep, hi] at h <;>
      try cases h
    · split at h
      · rename_i hreport
        cases h
        exact hs.pass i id (fun _ _ _ => published_of_report hreport) hs.confirmed
      · cases h
    · split at h
      · rename_i hcreate
        cases h
        refine hs.pass i (fun hmem => published_set hmem hcreate) (fun _ _ heq => ?_) ?_
        · cases heq
        · exact fun comment heq => published_set (hs.confirmed comment heq) hcreate
      · cases h
    · exact hs.move i fun previous comment heq => by cases heq
  | stop i =>
    cases h
    exact hs.move i fun previous comment heq => by cases heq
  | publish create =>
    simp only [publicationStep] at h
    split at h
    · rename_i hcreate
      cases h
      exact ⟨fun i previous comment hi =>
          published_set (hs.confirming i previous comment hi) hcreate,
        fun comment heq => published_set (hs.confirmed comment heq) hcreate⟩
    · cases h

/-! ## Write-once -/

/-- At most one entry can be published when all but one are rejected. -/
theorem RejectedBut.published_once {creates : List CreateStatus} {create : Nat}
    (h : RejectedBut creates create) : creates.count .published ≤ 1 := by
  induction creates generalizing create with
  | nil => simp
  | cons status creates ih =>
    cases create with
    | zero =>
      -- Everything after the first entry was rejected.
      have hnone : creates.count .published = 0 := by
        refine List.count_eq_zero.mpr fun hmem => ?_
        obtain ⟨k, hk⟩ := List.getElem?_of_mem hmem
        have hrejected := h (k + 1) .published hk (Nat.succ_ne_zero k)
        cases hrejected
      rw [List.count_cons, hnone]
      split <;> omega
    | succ create =>
      have hstatus : status = .rejected := h 0 status rfl (Nat.succ_ne_zero create).symm
      have hrest : RejectedBut creates create := fun k other hk hne =>
        h (k + 1) other hk fun heq => hne (Nat.succ.inj heq)
      rw [hstatus, List.count_cons_of_ne (by decide)]
      exact ih hrest

/-- A create is issued by a publisher that is armed. -/
theorem armed_of_create {reports : ForgeReports} {i : ι} {t : Publication ι Comment}
    (h : publicationStep reports (.create i) s = some t) : s.points i = .armed := by
  cases hi : s.points i <;> simp only [publicationStep, hi] at h <;> cases h
  rfl

/-- **Comments are published at most once.** In every state that any interleaving reaches, with any
forge: a create is issued only when every create before it was rejected; at most one create is ever
published; the record moves only along `SlotMove`. With a forge that reports the comment only once
it is published, no create is issued when the record is confirmed. -/
theorem publication_once {reports : ForgeReports} {events : List (PublicationEvent ι Comment)}
    (h : run (publicationStep reports) events .initial = some s) :
    (∀ i t, publicationStep reports (.create i) s = some t →
      ∀ status ∈ s.creates, status = .rejected) ∧
    s.creates.count .published ≤ 1 ∧
    (∀ event t, publicationStep reports event s = some t → SlotMove s.slot t.slot) ∧
    (reports = .published → ∀ comment, s.slot = some (.confirmed comment) →
      ∀ i, publicationStep reports (.create i) s = none) := by
  have hs := inv_run h
  refine ⟨fun i t hstep => hs.armed i (armed_of_create hstep), ?_,
    fun event t hstep => slotMove_step hs hstep, ?_⟩
  · obtain ⟨create, hcreate⟩ := hs.single
    exact hcreate.published_once
  · rintro rfl comment hslot i
    have hseen : Seen s := by
      refine run_invariant (fun event s t hstep hs => Seen.step hs hstep) h ⟨?_, ?_⟩
      · intro i previous comment hi
        cases hi
      · intro comment heq
        cases heq
    by_contra hstep
    obtain ⟨t, ht⟩ := Option.ne_none_iff_exists'.mp hstep
    have hrejected := hs.armed i (armed_of_create ht) _ (hseen.confirmed comment hslot)
    cases hrejected

end

namespace Sample

/-- One publisher creates and confirms the comment, while another has loaded the record before. -/
def publishedRun : List (PublicationEvent Bool Unit) :=
  [.load true, .load false, .scan true none, .scan false none, .swap true, .create true, .publish 0,
    .answer true (.ok ()), .swap true]

/-- The forge reports a comment that nobody created to the second publisher. -/
def spuriousRun : List (PublicationEvent Bool Unit) :=
  [.load true, .scan true none, .swap true, .load false, .scan false (some ()), .swap false]

end Sample

open Sample in
/-- Once the first publisher has confirmed, the other one is not given a create. -/
theorem publishedRun_once :
    ∃ s, run (publicationStep .published) publishedRun .initial = some s ∧
      s.slot = some (.confirmed ()) ∧ s.creates = [.published] ∧
      ∀ i, publicationStep .published (.create i) s = none := by
  have hrun : (run (publicationStep .published) publishedRun .initial).isSome = true := by decide
  obtain ⟨s, hs⟩ := Option.isSome_iff_exists.mp hrun
  have hslot : (run (publicationStep .published) publishedRun .initial).map (·.slot) =
      some (some (.confirmed ())) := by decide
  have hcreates : (run (publicationStep .published) publishedRun .initial).map (·.creates) =
      some [.published] := by decide
  rw [hs] at hslot hcreates
  have hconfirmed := Option.some.inj hslot
  exact ⟨s, hs, hconfirmed, Option.some.inj hcreates,
    (publication_once hs).2.2.2 rfl () hconfirmed⟩

open Sample in
/-- With a forge that reports a comment nobody created, the record is confirmed while a publisher
still holds its authorization, and that publisher creates. -/
theorem confirmed_create :
    ¬ ∀ (events : List (PublicationEvent Bool Unit)) (s : Publication Bool Unit),
      run (publicationStep .anything) events .initial = some s →
      ∀ comment, s.slot = some (.confirmed comment) →
        ∀ i, publicationStep .anything (.create i) s = none := by
  intro h
  have hrun : ((run (publicationStep .anything) spuriousRun .initial).bind
      (publicationStep .anything (.create true))).isSome = true := by decide
  obtain ⟨t, ht⟩ := Option.isSome_iff_exists.mp hrun
  obtain ⟨s, hs, hcreate⟩ := Option.bind_eq_some_iff.mp ht
  have hslot : (run (publicationStep .anything) spuriousRun .initial).map (·.slot) =
      some (some (.confirmed ())) := by decide
  rw [hs] at hslot
  have hnone := h spuriousRun s hs () (Option.some.inj hslot) true
  rw [hcreate] at hnone
  cases hnone

end Zeroshot.Delivery
