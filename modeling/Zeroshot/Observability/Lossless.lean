import Zeroshot.Observability.Subscriptions

set_option autoImplicit false

/-!
# Durable streams lose nothing

What a subscription from a cursor has to yield is given by position: the event at each position
makes a notification or none, from the snapshot that the events up to it fold to. `Lawful` says that
an observer makes exactly these of a page, wherever the page begins and ends and however much newer
the snapshot that came with it is; the watch and the log stream are lawful. For a lawful observer,
every run keeps the notifications handed out and pending together equal to the selection up to the
position scanned, across reconnects.
-/

namespace Zeroshot.Observability

open Ledger Machine

/-! ## What has to be yielded -/

section Expected

variable (wire : Wire) (seed : RunSnapshot)

/-- The snapshot that the first `k` events fold to. -/
def snapshotAt (events : List StoredRunEvent) (k : Nat) : Option RunSnapshot :=
  replay (step wire) 0 seed ((events.take k).map StoredRunEvent.event)

/-- The notification of the event at a position, to a watch after the first `after` events: the
status is that of exactly the events up to it. -/
def watchExpected (after : Nat) (events : List StoredRunEvent) (i : Nat) :
    Option RunWatchEventNotification :=
  events[i]?.bind fun stored =>
    if after < i + 1 && changesPublicStatus stored.event then
      (snapshotAt wire seed events (i + 1)).bind fun snapshot =>
        (statusFromSnapshot wire snapshot).toOption.map fun status =>
          ⟨"", snapshot.runId, snapshot.title, snapshot.source, snapshot.size, stored.cursor,
            status⟩
    else none

/-- The log line of the event at a position, to a log stream after the first `after` events. -/
def logsExpected (filter : Option ExecutionId) (after : Nat) (events : List StoredRunEvent)
    (i : Nat) : Option RunLogEventNotification :=
  events[i]?.bind fun stored =>
    if after < i + 1 then
      (snapshotAt wire seed events (i + 1)).bind fun snapshot =>
        (logNotification wire "" snapshot filter stored).toOption.join
    else none

/-- A notification without the subscription it came over. -/
def watchBody (notification : RunWatchEventNotification) : RunWatchEventNotification :=
  { notification with subscriptionId := "" }

def logsBody (notification : RunLogEventNotification) : RunLogEventNotification :=
  { notification with subscriptionId := "" }

variable {wire seed}

theorem snapshotAt_append {events more : List StoredRunEvent} {k : Nat} (h : k ≤ events.length) :
    snapshotAt wire seed (events ++ more) k = snapshotAt wire seed events k := by
  rw [snapshotAt, List.take_append_of_le_length h, snapshotAt]

theorem watchExpected_append {after i : Nat} {events more : List StoredRunEvent}
    (h : i < events.length) :
    watchExpected wire seed after (events ++ more) i = watchExpected wire seed after events i := by
  unfold watchExpected
  rw [List.getElem?_append_left h, snapshotAt_append h]

theorem logsExpected_append {filter : Option ExecutionId} {after i : Nat}
    {events more : List StoredRunEvent} (h : i < events.length) :
    logsExpected wire seed filter after (events ++ more) i =
      logsExpected wire seed filter after events i := by
  unfold logsExpected
  rw [List.getElem?_append_left h, snapshotAt_append h]

end Expected

/-! ## Lawful observers -/

section

variable {Scan Note : Type}

/-- An observer that makes of the events exactly what is expected of them. `Scanned after front`
describes a scan that has dealt with the events `front` for a client that started after the first
`after` events. -/
structure Lawful (wire : Wire) (seed : RunSnapshot) (observer : Observer Scan Note)
    (cursorOf : Note → Cursor) (body : Note → Note)
    (expected : Nat → List StoredRunEvent → Nat → Option Note)
    (Scanned : Nat → List StoredRunEvent → Scan → Prop) (Known : RunSnapshot → Prop) : Prop where
  stable : ∀ after events more i, i < events.length →
    expected after (events ++ more) i = expected after events i
  before : ∀ after events i, i < after → expected after events i = none
  later : ∀ after after' events i, after ≤ after' → after' ≤ i →
    expected after events i = expected after' events i
  cursor : ∀ after snapshot events i note, Sourced wire seed snapshot events →
    expected after events i = some note → cursorOf note = cursorFor (i + 1)
  cursorBody : ∀ note, cursorOf (body note) = cursorOf note
  begins : ∀ subscriptionId start after k snapshot events scan,
    cursorSequence start = .ok after → Sourced wire seed snapshot events → Known snapshot →
    FakeRunLedger.requested (observer.readFrom start) = .ok k → k ≤ events.length →
    observer.begin subscriptionId start snapshot = .ok scan →
    k ≤ after ∧ after ≤ events.length ∧ Scanned after (events.take k) scan
  scans : ∀ after front page past snapshot scan, Sourced wire seed snapshot past →
    front ++ page <+: past → Scanned after front scan →
    ∃ scan' notes, observer.scan scan ⟨snapshot, page⟩ = .ok (scan', notes) ∧
      Scanned after (front ++ page) scan' ∧
      notes.map body = selection (expected after past) front.length page.length

end

/-! ## Folded events -/

section Folds

variable {Program : Type} {wire : Wire} {runId : RunId} {admitted : AdmittedRun Program}
  {snapshot : RunSnapshot} {past front : List StoredRunEvent} {stored : StoredRunEvent}

theorem cursorsFrom_getElem? {n k i : Nat} (h : i < k) :
    (cursorsFrom n k)[i]? = some (cursorFor (n + i + 1)) := by
  induction k generalizing n i with
  | zero => exact absurd h (Nat.not_lt_zero i)
  | succ k ih =>
    cases i with
    | zero => rfl
    | succ i =>
      rw [cursorsFrom, List.getElem?_cons_succ, ih (Nat.lt_of_succ_lt_succ h)]
      congr 2
      omega

theorem sourced_cursor {seed : RunSnapshot} (h : Sourced wire seed snapshot past) {i : Nat}
    (hi : past[i]? = some stored) : stored.cursor = cursorFor (i + 1) := by
  have hlt := (List.getElem?_eq_some_iff.mp hi).1
  have hcursor : (past.map StoredRunEvent.cursor)[i]? = some stored.cursor := by
    rw [List.getElem?_map, hi]
    rfl
  rw [h.cursors, cursorsFrom_getElem? hlt, Nat.zero_add] at hcursor
  exact (Option.some.inj hcursor).symm

/-- What one more event of a run does to a projection of the events before it. -/
structure Folded (wire : Wire) (seed : RunSnapshot) (past : List StoredRunEvent) (k : Nat)
    (stored : StoredRunEvent) (projection next : RunSnapshot) : Prop where
  at_ : past[k]? = some stored
  sequence : cursorSequence stored.cursor = .ok (k + 1)
  step : step wire stored.event (k + 1) projection = some next
  snapshot : snapshotAt wire seed past (k + 1) = some next

theorem sourced_folded {seed projection : RunSnapshot} (h : Sourced wire seed snapshot past)
    {page : List StoredRunEvent} (hfront : front ++ stored :: page <+: past)
    (hprojection : replay (step wire) 0 seed (front.map StoredRunEvent.event) = some projection) :
    ∃ next, Folded wire seed past front.length stored projection next ∧
      replay (Ledger.step wire) 0 seed ((front ++ [stored]).map StoredRunEvent.event) =
        some next := by
  obtain ⟨rest, hpast⟩ := hfront
  have hsplit : past = (front ++ [stored]) ++ (page ++ rest) := by
    rw [← hpast]
    simp
  have hreplayed := h.replayed
  rw [hsplit, List.map_append] at hreplayed
  obtain ⟨next, hnext, -⟩ := replay_split hreplayed
  have hstep : step wire stored.event (front.length + 1) projection = some next := by
    rw [List.map_append, replay_append hprojection, List.length_map, Nat.zero_add] at hnext
    simp only [List.map_cons, List.map_nil, replay] at hnext
    split at hnext
    next u hu => rw [hu, ← hnext]
    next => cases hnext
  have hat : past[front.length]? = some stored := by
    rw [← hpast]
    simp
  have htake : past.take (front.length + 1) = front ++ [stored] := by
    rw [hsplit, List.take_append_of_le_length (by simp), List.take_of_length_le (by simp)]
  refine ⟨next, ⟨hat, ?_, hstep, ?_⟩, hnext⟩
  · rw [sourced_cursor h hat]
    have hlt := (List.getElem?_eq_some_iff.mp hat).1
    exact cursorSequence_cursorFor (by have := h.bounded; omega)
  · rw [snapshotAt, htake]
    exact hnext

/-- The status after every event of a run is well defined. -/
theorem folded_status {next : RunSnapshot}
    (h : replay (step wire) 0 (.ofAdmitted runId admitted) (front.map StoredRunEvent.event) =
      some next) : ∃ status, statusFromSnapshot wire next = .ok status :=
  statusFromSnapshot_ok wire (replay_lifecycle h).1

end Folds

/-! ## The watch is lawful -/

section Watch

variable {Program : Type} {wire : Wire} {runId : RunId} {admitted : AdmittedRun Program}

/-- A watch has folded the events it has scanned. -/
def WatchScanned (wire : Wire) (seed : RunSnapshot) (after : Nat) (front : List StoredRunEvent)
    (scan : WatchScan) : Prop :=
  scan.after = after ∧
    replay (step wire) 0 seed (front.map StoredRunEvent.event) = some scan.projection

theorem watchFold_spec {snapshot : RunSnapshot} {past : List StoredRunEvent}
    (hsourced : Sourced wire (.ofAdmitted runId admitted) snapshot past) {after : Nat}
    (page : List StoredRunEvent) {front : List StoredRunEvent} {scan : WatchScan}
    (hfront : front ++ page <+: past)
    (hscan : WatchScanned wire (.ofAdmitted runId admitted) after front scan) :
    ∃ scan' notes, watchFold wire scan page = .ok (scan', notes) ∧
      WatchScanned wire (.ofAdmitted runId admitted) after (front ++ page) scan' ∧
      notes.map watchBody = selection (watchExpected wire (.ofAdmitted runId admitted) after past)
        front.length page.length := by
  induction page generalizing front scan with
  | nil => exact ⟨scan, [], rfl, by rwa [List.append_nil], rfl⟩
  | cons stored page ih =>
    obtain ⟨rfl, hprojection⟩ := hscan
    obtain ⟨next, hfolded, hnext⟩ := sourced_folded hsourced hfront hprojection
    obtain ⟨status, hstatus⟩ := folded_status hnext
    have hproject : project wire stored.event (front.length + 1) scan.projection = .ok next := by
      unfold project
      rw [step_eq_some.mp hfolded.step]
    have hfront' : (front ++ [stored]) ++ page <+: past := by simpa using hfront
    obtain ⟨scan', notes, hfold, hscanned, hnotes⟩ :=
      @ih (front ++ [stored]) { scan with projection := next } hfront' ⟨rfl, hnext⟩
    rw [List.append_assoc, List.singleton_append] at hscanned
    rw [List.length_append, List.length_singleton] at hnotes
    rw [List.length_cons, selection_one_add, ← hnotes]
    unfold watchFold
    simp only [hfolded.sequence, hproject, fromLedger, bind, Except.bind]
    unfold watchExpected
    rw [hfolded.at_, hfolded.snapshot]
    simp only [Option.bind_some, hstatus, Except.toOption, Option.map_some]
    by_cases hnotify :
        (decide (scan.after < front.length + 1) && changesPublicStatus stored.event) = true
    · rw [if_pos hnotify, if_pos hnotify, hfold]
      exact ⟨scan', _, rfl, hscanned, rfl⟩
    · rw [if_neg hnotify, if_neg hnotify, hfold]
      exact ⟨scan', notes, rfl, hscanned, rfl⟩

theorem watchExpected_eq_some {seed : RunSnapshot} {after i : Nat} {events : List StoredRunEvent}
    {note : RunWatchEventNotification}
    (h : watchExpected wire seed after events i = some note) :
    after < i + 1 ∧ ∃ stored, events[i]? = some stored ∧ note.cursor = stored.cursor := by
  obtain ⟨stored, hstored, h⟩ := Option.bind_eq_some_iff.mp h
  split at h
  case isFalse => cases h
  case isTrue hnotify =>
    obtain ⟨snapshot, -, h⟩ := Option.bind_eq_some_iff.mp h
    obtain ⟨status, -, rfl⟩ := Option.map_eq_some_iff.mp h
    rw [Bool.and_eq_true, decide_eq_true_eq] at hnotify
    exact ⟨hnotify.1, stored, hstored, rfl⟩

theorem watch_lawful : Lawful wire (.ofAdmitted runId admitted) (watchObserver wire)
    RunWatchEventNotification.cursor watchBody (watchExpected wire (.ofAdmitted runId admitted))
    (WatchScanned wire (.ofAdmitted runId admitted)) (fun _ => True) where
  stable _ _ _ _ h := watchExpected_append h
  before after events i h := by
    cases hnote : watchExpected wire (.ofAdmitted runId admitted) after events i with
    | none => rfl
    | some note =>
      have := (watchExpected_eq_some hnote).1
      omega
  later after after' events i hle hi := by
    unfold watchExpected
    have hafter : after < i + 1 := by omega
    have hafter' : after' < i + 1 := by omega
    simp only [hafter, hafter']
  cursor after snapshot events i note hsourced hnote := by
    obtain ⟨-, stored, hstored, hcursor⟩ := watchExpected_eq_some hnote
    rw [hcursor]
    exact sourced_cursor hsourced hstored
  cursorBody _ := rfl
  begins subscriptionId start after k snapshot events scan hstart hsourced _ hk hle hbegin := by
    cases hk
    simp only [watchObserver, hstart, hsourced.sequence, fromLedger, bind, Except.bind] at hbegin
    split at hbegin
    case isTrue => cases hbegin
    case isFalse hahead =>
      cases hbegin
      refine ⟨Nat.zero_le _, Nat.not_lt.mp hahead, rfl, ?_⟩
      rw [hsourced.seeded]
      rfl
  scans after front page past snapshot scan hsourced hfront hscan :=
    watchFold_spec hsourced page hfront hscan

end Watch

/-! ## The log stream is lawful -/

section Logs

variable {Program : Type} {wire : Wire} {runId : RunId} {admitted : AdmittedRun Program}

/-- The address of an execution does not change, so a newer snapshot gives the same log line. -/
theorem logNotification_later (wire : Wire) {own snapshot : RunSnapshot} (subscriptionId : String)
    (filter : Option ExecutionId) {stored : StoredRunEvent} (hrun : snapshot.runId = own.runId)
    (hkeeps : KeepsReferences own snapshot)
    (hknown : ∀ execution timestamp stream line diagnostic,
      stored.event = .safeLog execution timestamp stream line diagnostic →
      ∀ id, execution = some id → ∃ node, OrdMap.get? own.executions id = some node) :
    ∃ note, logNotification wire "" own filter stored = .ok (note.map logsBody) ∧
      logNotification wire subscriptionId snapshot filter stored = .ok note := by
  unfold logNotification
  split
  next execution timestamp stream line diagnostic hevent =>
    split
    case isTrue => exact ⟨none, rfl, rfl⟩
    case isFalse =>
      obtain ⟨selector, hown, hlater⟩ : ∃ selector,
          publicExecution wire own execution = .ok selector ∧
            publicExecution wire snapshot execution = .ok selector := by
        cases execution with
        | none => exact ⟨none, rfl, rfl⟩
        | some id =>
          obtain ⟨node, hnode⟩ := hknown _ _ _ _ _ hevent id rfl
          obtain ⟨node', hnode', hreference⟩ := hkeeps.found id node hnode
          refine ⟨some (wire.executionToken node.reference), ?_, ?_⟩
          · simp only [publicExecution, hnode]
          · simp only [publicExecution, hnode', hreference]
      rw [hown, hlater]
      exact ⟨some ⟨subscriptionId, snapshot.runId, stored.cursor, timestamp, selector,
        logRecord stream line⟩, by rw [hrun]; rfl, rfl⟩
  next => exact ⟨none, rfl, rfl⟩

theorem logsFold_spec {snapshot : RunSnapshot} {past : List StoredRunEvent}
    (hsourced : Sourced wire (.ofAdmitted runId admitted) snapshot past) {after : Nat}
    (scan : LogsScan) (page : List StoredRunEvent) {front : List StoredRunEvent}
    (hfront : front ++ page <+: past) (hafter : after ≤ front.length) :
    ∃ notes, logsFold wire snapshot scan page = .ok notes ∧
      notes.map logsBody =
        selection (logsExpected wire (.ofAdmitted runId admitted) scan.execution after past)
          front.length page.length := by
  induction page generalizing front with
  | nil => exact ⟨[], rfl, rfl⟩
  | cons stored page ih =>
    obtain ⟨rest, hpast⟩ := hfront
    have hreplayed := hsourced.replayed
    rw [← hpast, List.append_assoc, List.map_append] at hreplayed
    obtain ⟨projection, hprojection, -⟩ := replay_split hreplayed
    have hfront : front ++ stored :: page <+: past := ⟨rest, hpast⟩
    obtain ⟨next, hfolded, hnext⟩ := sourced_folded hsourced hfront hprojection
    have hfront' : (front ++ [stored]) ++ page <+: past := by simpa using hfront
    have hafter' : after ≤ (front ++ [stored]).length := by
      rw [List.length_append]
      omega
    obtain ⟨notes, hfold, hnotes⟩ := ih hfront' hafter'
    -- the page's snapshot is a later one of the same run
    obtain ⟨more, hmore⟩ := hfront'
    have hlater : replay (step wire) (front ++ [stored]).length next
        ((page ++ more).map StoredRunEvent.event) = some snapshot := by
      have hall := hsourced.replayed
      rw [← hmore, List.append_assoc, List.map_append, replay_append hnext, List.length_map,
        Nat.zero_add] at hall
      exact hall
    have hrun : snapshot.runId = next.runId := by
      show snapshot.replaySeed.runId = next.replaySeed.runId
      rw [replay_replaySeed hlater]
    have hknown : ∀ execution timestamp stream line diagnostic,
        stored.event = .safeLog execution timestamp stream line diagnostic →
        ∀ id, execution = some id → ∃ node, OrdMap.get? next.executions id = some node := by
      intro execution timestamp stream line diagnostic hevent id hid
      have hstep := hfolded.step
      rw [hevent] at hstep
      obtain ⟨node, hnode⟩ := step_safeLog hstep id hid
      obtain ⟨node', hnode', -⟩ := (step_keepsReferences hstep).found id node hnode
      exact ⟨node', hnode'⟩
    obtain ⟨note, hown, hnote⟩ := logNotification_later wire scan.subscriptionId scan.execution hrun
      (replay_keepsReferences hlater) hknown
    have hexpected : logsExpected wire (.ofAdmitted runId admitted) scan.execution after past
        front.length = note.map logsBody := by
      have hlt : after < front.length + 1 := by omega
      unfold logsExpected
      rw [hfolded.at_, Option.bind_some, if_pos hlt, hfolded.snapshot, Option.bind_some, hown]
      rfl
    refine ⟨note.toList ++ notes, ?_, ?_⟩
    · unfold logsFold
      simp only [hnote, hfold, bind, Except.bind]
    · rw [List.length_append, List.length_singleton] at hnotes
      rw [List.length_cons, selection_one_add, hexpected, List.map_append, hnotes]
      cases note <;> rfl

theorem logsExpected_eq_some {seed : RunSnapshot} {filter : Option ExecutionId} {after i : Nat}
    {events : List StoredRunEvent} {note : RunLogEventNotification}
    (h : logsExpected wire seed filter after events i = some note) :
    after < i + 1 ∧ ∃ stored, events[i]? = some stored ∧ note.cursor = stored.cursor := by
  obtain ⟨stored, hstored, h⟩ := Option.bind_eq_some_iff.mp h
  split at h
  case isFalse => cases h
  case isTrue hafter =>
    obtain ⟨snapshot, -, h⟩ := Option.bind_eq_some_iff.mp h
    refine ⟨hafter, stored, hstored, ?_⟩
    unfold logNotification at h
    split at h
    next execution timestamp stream line diagnostic hevent =>
      split at h
      case isTrue => cases h
      case isFalse =>
        cases hselector : publicExecution wire snapshot execution with
        | error error => simp [hselector, bind, Except.bind, Except.toOption] at h
        | ok selector =>
          simp only [hselector, bind, Except.bind, Except.toOption, Option.join_some,
            Option.some.injEq] at h
          rw [← h]
    next => cases h

/-- A log stream keeps the execution its selector stands for. -/
def LogsScanned (filter : Option ExecutionRef) (after : Nat) (front : List StoredRunEvent)
    (scan : LogsScan) : Prop :=
  scan.execution = filter.map ExecutionRef.execution ∧ after ≤ front.length

/-- No other execution of the run has the selector of the filter. -/
def Selects (wire : Wire) (filter : Option ExecutionRef) (snapshot : RunSnapshot) : Prop :=
  ∀ reference ∈ filter, ∀ node ∈ OrdMap.values snapshot.executions,
    wire.executionToken node.reference = wire.executionToken reference → node.reference = reference

instance (wire : Wire) (filter : Option ExecutionRef) (snapshot : RunSnapshot) :
    Decidable (Selects wire filter snapshot) :=
  inferInstanceAs (Decidable (∀ reference ∈ filter, ∀ node ∈ OrdMap.values snapshot.executions,
    wire.executionToken node.reference = wire.executionToken reference →
      node.reference = reference))

theorem Selects.of_later {filter : Option ExecutionRef} {s t : RunSnapshot}
    (hkeeps : KeepsReferences s t) (h : Selects wire filter t) : Selects wire filter s := by
  intro reference hreference node hnode htoken
  obtain ⟨node', hnode', hsame⟩ := hkeeps.listed node hnode
  rw [← hsame] at htoken ⊢
  exact h reference hreference node' hnode' htoken

theorem resolvePublicExecution_eq {snapshot : RunSnapshot} {reference : ExecutionRef}
    {execution : ExecutionId} (hselects : Selects wire (some reference) snapshot)
    (h : resolvePublicExecution wire snapshot (wire.executionToken reference) = .ok execution) :
    execution = reference.execution := by
  unfold resolvePublicExecution at h
  split at h
  next node hnode =>
    have hselector := List.find?_some hnode
    rw [decide_eq_true_eq] at hselector
    cases h
    rw [hselects reference rfl node (List.mem_of_find?_eq_some hnode) hselector]
  next => cases h

theorem logs_lawful (filter : Option ExecutionRef) :
    Lawful wire (.ofAdmitted runId admitted)
      (logsObserver wire (filter.map wire.executionToken)) RunLogEventNotification.cursor logsBody
      (logsExpected wire (.ofAdmitted runId admitted) (filter.map ExecutionRef.execution))
      (LogsScanned filter) (Selects wire filter) where
  stable _ _ _ _ h := logsExpected_append h
  before after events i h := by
    cases hnote : logsExpected wire (.ofAdmitted runId admitted)
        (filter.map ExecutionRef.execution) after events i with
    | none => rfl
    | some note =>
      have := (logsExpected_eq_some hnote).1
      omega
  later after after' events i hle hi := by
    unfold logsExpected
    have hafter : after < i + 1 := by omega
    have hafter' : after' < i + 1 := by omega
    simp only [hafter, hafter']
  cursor after snapshot events i note hsourced hnote := by
    obtain ⟨-, stored, hstored, hcursor⟩ := logsExpected_eq_some hnote
    rw [hcursor]
    exact sourced_cursor hsourced hstored
  cursorBody _ := rfl
  begins subscriptionId start after k snapshot events scan hstart hsourced hselects hk hle
      hbegin := by
    have hka : after = k := Except.ok.inj (hstart.symm.trans hk)
    subst hka
    refine ⟨Nat.le_refl _, hle, ?_, ?_⟩
    · cases filter with
      | none =>
        cases hbegin
        rfl
      | some reference =>
        simp only [logsObserver, Option.map_some, bind, Except.bind] at hbegin
        split at hbegin
        next => cases hbegin
        next execution hexecution =>
          cases hbegin
          exact congrArg some (resolvePublicExecution_eq hselects hexecution)
    · rw [List.length_take]
      omega
  scans after front page past snapshot scan hsourced hfront hscan := by
    obtain ⟨hexecution, hafter⟩ := hscan
    obtain ⟨notes, hfold, hnotes⟩ := logsFold_spec hsourced scan page hfront hafter
    refine ⟨scan, notes, ?_, ⟨hexecution, ?_⟩, ?_⟩
    · simp only [logsObserver, hfold, bind, Except.bind]
    · rw [List.length_append]
      omega
    · rw [hnotes, hexecution]

end Logs

/-! ## Runs -/

section Runs

variable {Program Scan Note : Type} {wire : Wire} {runId : RunId} {admitted : AdmittedRun Program}
  {observer : Observer Scan Note} {cursorOf : Note → Cursor} {body : Note → Note}
  {expected : Nat → List StoredRunEvent → Nat → Option Note}
  {Scanned : Nat → List StoredRunEvent → Scan → Prop} {Known : RunSnapshot → Prop}
  {start : Cursor} {c : Nat} {s t : Observation Scan Note}

variable (wire runId admitted body expected Scanned c) in
/-- The notifications handed out and pending are those of the positions scanned, to a client that
started after the first `c` events. `a` is where the present subscription started and `front` what
it has scanned; a read it has not dealt with continues `front`. -/
structure Observation.Inv (s : Observation Scan Note) : Prop where
  sourced : Sourced wire (.ofAdmitted runId admitted) s.snapshot s.events
  sound : s.faulted = false
  delivered : s.delivered.map body <+: selection (expected c s.events) 0 s.events.length
  scanned : ∀ subscription, s.subscription = some subscription → ∃ a front, c ≤ a ∧
    a ≤ s.events.length ∧ front <+: s.events ∧
    cursorSequence subscription.scannedThrough = .ok front.length ∧
    Scanned a front subscription.scan ∧
    s.delivered.map body ++ subscription.pending.map body =
      selection (expected c s.events) 0 (max a front.length) ∧
    ∀ tail, s.fetched = some tail → ∃ past, past <+: s.events ∧
      Sourced wire (.ofAdmitted runId admitted) tail.snapshot past ∧ front ++ tail.events <+: past
  ended : s.ended = true → s.snapshot.terminal.isSome = true ∧
    s.delivered.map body = selection (expected c s.events) 0 s.events.length

theorem Lawful.selection_append
    (law : Lawful wire (.ofAdmitted runId admitted) observer cursorOf body expected Scanned Known)
    {events later : List StoredRunEvent} (h : events <+: later) {a k n : Nat}
    (hle : k + n ≤ events.length) :
    selection (expected a later) k n = selection (expected a events) k n := by
  obtain ⟨more, rfl⟩ := h
  exact selection_congr fun i _ hi => law.stable a events more i (by omega)

/-- A selection for a client that started later continues one for a client that started earlier. -/
theorem Lawful.selection_continue
    (law : Lawful wire (.ofAdmitted runId admitted) observer cursorOf body expected Scanned Known)
    (events : List StoredRunEvent) {a : Nat} (hca : c ≤ a) (k n : Nat) :
    selection (expected c events) 0 (max a k) ++ selection (expected a events) k n =
      selection (expected c events) 0 (max a (k + n)) := by
  have hsame : ∀ k n, a ≤ k →
      selection (expected a events) k n = selection (expected c events) k n := by
    intro k n hak
    exact selection_congr fun i hi _ => (law.later c a events i hca (by omega)).symm
  have hnone : ∀ k n, k + n ≤ a → selection (expected a events) k n = [] := by
    intro k n hkn
    exact selection_eq_nil fun i _ hi => law.before a events i (by omega)
  rcases Nat.le_total a k with hak | hka
  · rw [Nat.max_eq_right hak, Nat.max_eq_right (by omega), hsame k n hak, selection_add,
      Nat.zero_add]
  · rw [Nat.max_eq_left hka]
    rcases Nat.le_total (k + n) a with hle | hle
    · rw [Nat.max_eq_left hle, hnone k n hle, List.append_nil]
    · -- the positions up to `a` give nothing
      obtain ⟨d, rfl⟩ := Nat.exists_eq_add_of_le hka
      obtain ⟨e, rfl⟩ : ∃ e, n = d + e := ⟨n - d, by omega⟩
      rw [Nat.max_eq_right hle, selection_add k d e, hnone k d (Nat.le_refl _), List.nil_append,
        hsame _ _ (Nat.le_refl _), ← Nat.add_assoc, selection_add 0 (k + d) e, Nat.zero_add]

theorem take_append_page_initial (events : List StoredRunEvent) (k limit : Nat) :
    events.take k ++ (events.drop k).take limit <+: events := by
  refine ⟨(events.drop k).drop limit, ?_⟩
  rw [List.append_assoc, List.take_append_drop, List.take_append_drop]

/-- After a page, the scanned cursor is that of the last event scanned. -/
theorem scanned_cursor {snapshot : RunSnapshot} {past front page : List StoredRunEvent}
    (h : Sourced wire (.ofAdmitted runId admitted) snapshot past) (hfront : front ++ page <+: past)
    {cursor : Cursor} (hcursor : cursorSequence cursor = .ok front.length) :
    cursorSequence (page.getLast?.elim cursor StoredRunEvent.cursor) =
      .ok (front ++ page).length := by
  rcases List.eq_nil_or_concat' page with rfl | ⟨page, last, rfl⟩
  · rw [List.append_nil]
    exact hcursor
  · have hlength := hfront.length_le
    have hat : past[(front ++ page).length]? = some last := by
      obtain ⟨rest, rfl⟩ := hfront
      simp
    rw [List.getLast?_concat]
    show cursorSequence last.cursor = _
    rw [sourced_cursor h hat, cursorSequence_cursorFor]
    · simp only [List.length_append, List.length_singleton, Nat.add_assoc]
    · have := h.bounded
      simp only [List.length_append, List.length_singleton] at hlength ⊢
      omega

theorem sourced_status {snapshot : RunSnapshot} {past : List StoredRunEvent}
    (h : Sourced wire (.ofAdmitted runId admitted) snapshot past) :
    ∃ status, statusFromSnapshot wire snapshot = .ok status :=
  folded_status h.replayed

/-- Nothing is stored after the event that ends a run. -/
theorem terminal_complete {snapshot later : RunSnapshot} {past events : List StoredRunEvent}
    (h : Sourced wire (.ofAdmitted runId admitted) snapshot past)
    (hlater : Sourced wire (.ofAdmitted runId admitted) later events) (hinitial : past <+: events)
    (hterminal : snapshot.terminal.isSome = true) : past = events ∧ snapshot = later := by
  obtain ⟨rest, rfl⟩ := hinitial
  cases rest with
  | nil =>
    rw [List.append_nil] at hlater ⊢
    exact ⟨rfl, Option.some.inj (h.replayed.symm.trans hlater.replayed)⟩
  | cons stored rest =>
    have hreplayed := hlater.replayed
    rw [List.map_append, replay_append h.replayed, List.map_cons, replay,
      step_terminal hterminal] at hreplayed
    cases hreplayed

/-! ## Steps -/

/-- A read that continues what was scanned is dealt with without error. -/
theorem Lawful.refresh
    (law : Lawful wire (.ofAdmitted runId admitted) observer cursorOf body expected Scanned Known)
    {failed : Bool} {subscription : DurableSubscription Scan Note} {tail : SnapshotAndTail}
    {past front : List StoredRunEvent} {a : Nat}
    (hsourced : Sourced wire (.ofAdmitted runId admitted) tail.snapshot past)
    (hfront : front ++ tail.events <+: past) (hscan : Scanned a front subscription.scan) :
    ∃ scan notes, observer.refresh wire failed subscription tail =
        .ok (⟨scan, tail.events.getLast?.elim subscription.scannedThrough StoredRunEvent.cursor,
          subscription.pending ++ notes⟩,
          (tail.snapshot.terminal.isSome || failed) &&
            decide (tail.events.getLast?.elim subscription.scannedThrough StoredRunEvent.cursor =
              tail.snapshot.cursor)) ∧
      Scanned a (front ++ tail.events) scan ∧
      notes.map body = selection (expected a past) front.length tail.events.length := by
  obtain ⟨scan, notes, hscans, hscanned, hnotes⟩ :=
    law.scans a front tail.events past tail.snapshot subscription.scan hsourced hfront hscan
  obtain ⟨status, hstatus⟩ := sourced_status hsourced
  refine ⟨scan, notes, ?_, hscanned, hnotes⟩
  unfold Observer.refresh
  simp only [hscans, hstatus, bind, Except.bind]

theorem Observation.Inv.resume
    (law : Lawful wire (.ofAdmitted runId admitted) observer cursorOf body expected Scanned Known)
    (h : s.Inv wire runId admitted body expected Scanned c)
    (hstep : observationStep wire observer cursorOf start .resume s = some t) :
    t.Inv wire runId admitted body expected Scanned c := by
  obtain ⟨subscription, hsubscription, hstep⟩ := Option.bind_eq_some_iff.mp hstep
  obtain ⟨tail, hfetched, hstep⟩ := Option.bind_eq_some_iff.mp hstep
  obtain ⟨a, front, hca, ha, hfront, hcursor, hscan, hnotes, hfetch⟩ := h.scanned _ hsubscription
  obtain ⟨past, hpast, hsourced, hpage⟩ := hfetch tail hfetched
  obtain ⟨scan, notes, hrefresh, hscanned, hnew⟩ := law.refresh hsourced hpage hscan
  rw [hrefresh] at hstep
  cases hstep
  have hscannedThrough := scanned_cursor hsourced hpage hcursor
  have hlength : front.length + tail.events.length ≤ past.length := by
    simpa using hpage.length_le
  have hall : s.delivered.map body ++ (subscription.pending ++ notes).map body =
      selection (expected c s.events) 0 (max a (front ++ tail.events).length) := by
    rw [List.map_append, ← List.append_assoc, hnotes, hnew, ← law.selection_append hpast hlength,
      law.selection_continue s.events hca, List.length_append]
  refine ⟨h.sourced, h.sound, h.delivered, fun _ hsub => ?_, fun hended => ?_⟩
  · cases hsub
    exact ⟨a, front ++ tail.events, hca, ha, hpage.trans hpast, hscannedThrough, hscanned, hall,
      fun _ hc => nomatch hc⟩
  · rcases Bool.or_eq_true_iff.mp hended with hended | hended
    · exact h.ended hended
    · simp only [Bool.and_eq_true, Bool.or_eq_true, decide_eq_true_eq, Bool.not_eq_true',
        List.isEmpty_iff] at hended
      obtain ⟨⟨hempty, hfinished, hcaughtUp⟩, hrunning⟩ := hended
      have hterminal : tail.snapshot.terminal.isSome = true := by
        rcases hfinished with hfinished | hfinished
        · exact hfinished
        · rw [hrunning] at hfinished
          cases hfinished
      obtain ⟨rfl, hsame⟩ := terminal_complete hsourced h.sourced hpast hterminal
      rw [hcaughtUp, hsourced.sequence] at hscannedThrough
      have hcomplete := Except.ok.inj hscannedThrough
      rw [hempty, List.map_nil, List.append_nil, ← hcomplete, Nat.max_eq_right ha] at hall
      exact ⟨hsame ▸ hterminal, hall⟩

theorem Observation.Inv.fetch
    (h : s.Inv wire runId admitted body expected Scanned c) {limit : Nat}
    (hstep : observationStep wire observer cursorOf start (.fetch limit) s = some t) :
    t.Inv wire runId admitted body expected Scanned c := by
  obtain ⟨subscription, hsubscription, hstep⟩ := Option.bind_eq_some_iff.mp hstep
  split at hstep
  case isFalse => cases hstep
  case isTrue =>
    obtain ⟨a, front, hca, ha, hfront, hcursor, hscan, hnotes, -⟩ := h.scanned _ hsubscription
    have hread : readTail s.events s.snapshot (some subscription.scannedThrough) limit =
        .ok ⟨s.snapshot, (s.events.drop front.length).take limit⟩ := by
      unfold readTail FakeRunLedger.requested
      simp only [Option.elim_some, hcursor, bind, Except.bind]
      rw [if_neg (Nat.not_lt.mpr hfront.length_le)]
    rw [hread] at hstep
    cases hstep
    refine ⟨h.sourced, h.sound, h.delivered, fun _ hsub => ?_, h.ended⟩
    cases hsubscription.symm.trans hsub
    refine ⟨a, front, hca, ha, hfront, hcursor, hscan, hnotes, fun tail htail => ?_⟩
    cases htail
    refine ⟨s.events, List.prefix_rfl, h.sourced, ?_⟩
    obtain ⟨rest, hrest⟩ := hfront
    rw [← hrest, List.drop_left]
    exact (List.prefix_append_right_inj front).mpr (List.take_prefix limit rest)

/-- A notification that is handed out was pending. -/
theorem Observation.Inv.deliver (h : s.Inv wire runId admitted body expected Scanned c)
    {subscription : DurableSubscription Scan Note}
    (hsubscription : s.subscription = some subscription) {now later : List Note}
    (hpending : subscription.pending = now ++ later) :
    Observation.Inv wire runId admitted body expected Scanned c { s with
      subscription := some { subscription with pending := later }
      delivered := s.delivered ++ now } := by
  obtain ⟨a, front, hca, ha, hfront, hcursor, hscan, hnotes, hfetch⟩ := h.scanned _ hsubscription
  rw [hpending, List.map_append, ← List.append_assoc] at hnotes
  have hinitial : (s.delivered ++ now).map body <+:
      selection (expected c s.events) 0 s.events.length := by
    rw [List.map_append]
    refine List.IsPrefix.trans ⟨later.map body, hnotes⟩ (selection_initial 0 ?_)
    exact Nat.max_le.mpr ⟨ha, hfront.length_le⟩
  refine ⟨h.sourced, h.sound, hinitial, fun _ hsub => ?_, fun hended => ?_⟩
  · cases hsub
    refine ⟨a, front, hca, ha, hfront, hcursor, hscan, ?_, hfetch⟩
    rw [List.map_append]
    exact hnotes
  · obtain ⟨hterminal, hall⟩ := h.ended hended
    refine ⟨hterminal, hinitial.eq_of_length_le ?_⟩
    rw [← hall, List.length_map, List.length_map, List.length_append]
    exact Nat.le_add_right _ _

/-- The cursor a client subscribes from names the position up to which it has received
notifications. -/
theorem Observation.Inv.resumeFrom
    (law : Lawful wire (.ofAdmitted runId admitted) observer cursorOf body expected Scanned Known)
    (h : s.Inv wire runId admitted body expected Scanned c)
    (hstart : cursorSequence start = .ok c) :
    ∃ a, c ≤ a ∧ cursorSequence (s.resumeFrom cursorOf start) = .ok a ∧
      (a = c ∨ a ≤ s.events.length) ∧
      s.delivered.map body = selection (expected c s.events) 0 a := by
  unfold Observation.resumeFrom
  rcases prefix_selection h.delivered with hnil | ⟨j, hj, note, hnote, hlast, hall⟩
  · have hdelivered : s.delivered = [] := List.map_eq_nil_iff.mp hnil
    refine ⟨c, Nat.le_refl c, ?_, .inl rfl, ?_⟩
    · rw [hdelivered]
      exact hstart
    · rw [hnil, selection_eq_nil fun i _ hi => law.before c s.events i (by omega)]
  · rw [List.getLast?_map] at hlast
    obtain ⟨last, hgetLast, rfl⟩ := Option.map_eq_some_iff.mp hlast
    have hcursor := law.cursor c s.snapshot s.events j _ h.sourced hnote
    rw [law.cursorBody] at hcursor
    refine ⟨j + 1, ?_, ?_, .inr hj, hall⟩
    · by_contra hlt
      rw [law.before c s.events j (by omega)] at hnote
      cases hnote
    · rw [hgetLast]
      show cursorSequence (cursorOf last) = _
      rw [hcursor]
      exact cursorSequence_cursorFor (by have := h.sourced.bounded; omega)

theorem requested_cursor {after : Option Cursor} {k : Nat}
    (h : FakeRunLedger.requested after = .ok k) :
    cursorSequence (after.getD initialCursor) = .ok k := by
  cases after with
  | none =>
    cases h
    have hzero : (0 : Nat) < 2 ^ 64 := by simp
    exact cursorSequence_cursorFor hzero
  | some cursor => exact h

/-- What a subscription that is not refused has read and made. -/
theorem connect_eq_ok {limit : Nat} {subscription : DurableSubscription Scan Note}
    (h : s.connect wire observer start limit = .ok subscription) :
    ∃ k subscriptionId scan scan' notes,
      FakeRunLedger.requested (observer.readFrom start) = .ok k ∧ k ≤ s.events.length ∧
      observer.begin subscriptionId start s.snapshot = .ok scan ∧
      observer.scan scan ⟨s.snapshot, (s.events.drop k).take limit⟩ = .ok (scan', notes) ∧
      subscription = ⟨scan', ((s.events.drop k).take limit).getLast?.elim
        ((observer.readFrom start).getD initialCursor) StoredRunEvent.cursor, notes⟩ := by
  unfold Observation.connect readTail Observer.establish at h
  cases hk : FakeRunLedger.requested (observer.readFrom start) with
  | error error => simp [hk, fromLedger, bind, Except.bind] at h
  | ok k =>
    simp only [hk, bind, Except.bind] at h
    by_cases hahead : s.events.length < k
    · simp [hahead, fromLedger] at h
    · simp only [if_neg hahead, fromLedger] at h
      split at h
      next => cases h
      next =>
        split at h
        next => cases h
        next scan hbegin =>
          split at h
          next => cases h
          next result hscan =>
            cases h
            exact ⟨k, _, scan, result.1, result.2, rfl, Nat.not_lt.mp hahead, hbegin, hscan, rfl⟩

theorem Observation.Inv.connect
    (law : Lawful wire (.ofAdmitted runId admitted) observer cursorOf body expected Scanned Known)
    (h : s.Inv wire runId admitted body expected Scanned c) (hstart : cursorSequence start = .ok c)
    (hknown : Known s.snapshot) {limit : Nat}
    (hstep : observationStep wire observer cursorOf start (.connect limit) s = some t) :
    t.Inv wire runId admitted body expected Scanned c := by
  obtain ⟨a, hca, hcursor, -, hdelivered⟩ := h.resumeFrom law hstart
  simp only [observationStep] at hstep
  split at hstep
  case h_2 => cases hstep
  case h_1 subscription hconnect =>
    cases hstep
    obtain ⟨k, _, scan, scan', notes, hk, hle, hbegin, hscan, rfl⟩ := connect_eq_ok hconnect
    obtain ⟨hka, ha, hscanned⟩ := law.begins _ _ a k _ _ scan hcursor h.sourced hknown hk hle hbegin
    have hpage := take_append_page_initial s.events k limit
    obtain ⟨scan'', notes', hscan', hscanned', hnotes⟩ :=
      law.scans a _ _ s.events s.snapshot scan h.sourced hpage hscanned
    cases hscan.symm.trans hscan'
    have hlength : (s.events.take k).length = k := by
      rw [List.length_take]
      omega
    have hthrough := scanned_cursor h.sourced hpage
      (by rw [hlength]; exact requested_cursor hk :
        cursorSequence ((observer.readFrom (s.resumeFrom cursorOf start)).getD initialCursor) =
          .ok (s.events.take k).length)
    refine ⟨h.sourced, h.sound, h.delivered, fun _ hsub => ?_, h.ended⟩
    cases hsub
    refine ⟨a, _, hca, ha, hpage, hthrough, hscanned', ?_, fun _ hc => nomatch hc⟩
    have hcontinue := law.selection_continue s.events hca k ((s.events.drop k).take limit).length
    rw [Nat.max_eq_left hka] at hcontinue
    rw [hdelivered, hnotes, hlength, hcontinue, List.length_append, hlength]

theorem Observation.Inv.append
    (law : Lawful wire (.ofAdmitted runId admitted) observer cursorOf body expected Scanned Known)
    (h : s.Inv wire runId admitted body expected Scanned c) {batch : List RunEvent}
    (hstep : observationStep wire observer cursorOf start (.append batch) s = some t) :
    t.Inv wire runId admitted body expected Scanned c := by
  simp only [observationStep] at hstep
  split at hstep
  case isTrue => cases hstep
  case isFalse hbatch =>
    split at hstep
    case h_2 => cases hstep
    case h_1 snapshot last stored hloop =>
      cases hstep
      obtain ⟨happended, -, hlength⟩ :=
        appendLoop_appended FakeRunLedger.numbering_nextSequence hloop
      have hsourced := h.sourced.append happended
      have hinitial : s.events <+: s.events ++ stored := List.prefix_append _ _
      have hsame : ∀ n ≤ s.events.length, selection (expected c (s.events ++ stored)) 0 n =
          selection (expected c s.events) 0 n :=
        fun n hn => law.selection_append hinitial (by omega)
      refine ⟨hsourced, h.sound, ?_, fun subscription hsub => ?_, fun hended => ?_⟩
      · have hdelivered := h.delivered
        rw [← hsame _ (Nat.le_refl _)] at hdelivered
        exact hdelivered.trans (selection_initial 0 hinitial.length_le)
      · obtain ⟨a, front, hca, ha, hfront, hcursor, hscan, hnotes, hfetch⟩ :=
          h.scanned subscription hsub
        have hmax := Nat.max_le.mpr ⟨ha, hfront.length_le⟩
        refine ⟨a, front, hca, ha.trans hinitial.length_le, hfront.trans hinitial, hcursor, hscan,
          ?_, fun tail htail => ?_⟩
        · rw [hsame _ hmax]
          exact hnotes
        · obtain ⟨past, hpast, hpastSourced, hpage⟩ := hfetch tail htail
          exact ⟨past, hpast.trans hinitial, hpastSourced, hpage⟩
      · -- a run that has ended takes no further event
        obtain ⟨hterminal, -⟩ := h.ended hended
        have hstored := (terminal_complete h.sourced hsourced hinitial hterminal).1
        have hnil : stored = [] := by simpa using hstored
        rw [hnil, List.length_nil, eq_comm, List.length_eq_zero_iff] at hlength
        rw [hlength] at hbatch
        exact absurd rfl hbatch

/-- **Steps keep the invariant.** -/
theorem Observation.Inv.step
    (law : Lawful wire (.ofAdmitted runId admitted) observer cursorOf body expected Scanned Known)
    (hstart : cursorSequence start = .ok c) (hknown : Known s.snapshot) {e : ObservationEvent}
    (hstep : observationStep wire observer cursorOf start e s = some t)
    (h : s.Inv wire runId admitted body expected Scanned c) :
    t.Inv wire runId admitted body expected Scanned c := by
  cases e with
  | append batch => exact h.append law hstep
  | report failed =>
    cases hstep
    exact ⟨h.sourced, h.sound, h.delivered, h.scanned, h.ended⟩
  | connect limit => exact h.connect law hstart hknown hstep
  | fetch limit => exact h.fetch hstep
  | abandon =>
    cases hstep
    refine ⟨h.sourced, h.sound, h.delivered, fun subscription hsub => ?_, h.ended⟩
    obtain ⟨a, front, hca, ha, hfront, hcursor, hscan, hnotes, -⟩ := h.scanned subscription hsub
    exact ⟨a, front, hca, ha, hfront, hcursor, hscan, hnotes, fun _ hc => nomatch hc⟩
  | resume => exact h.resume law hstep
  | receive =>
    obtain ⟨subscription, hsubscription, hstep⟩ := Option.bind_eq_some_iff.mp hstep
    split at hstep
    next => cases hstep
    next notification pending hpending =>
      cases hstep
      exact h.deliver hsubscription hpending
  | drain =>
    obtain ⟨subscription, hsubscription, rfl⟩ := Option.map_eq_some_iff.mp hstep
    exact h.deliver hsubscription (List.append_nil _).symm

theorem Observation.inv_initial :
    (initial (.ofAdmitted runId admitted) : Observation Scan Note).Inv wire runId admitted body
      expected Scanned c :=
  ⟨.admitted wire runId admitted, rfl, List.nil_prefix, (fun _ hc => nomatch hc),
    fun hc => nomatch hc⟩

/-- Steps append to the run and keep the addresses of its executions. -/
theorem observationStep_keepsReferences {e : ObservationEvent}
    (h : observationStep wire observer cursorOf start e s = some t) :
    KeepsReferences s.snapshot t.snapshot := by
  cases e with
  | append batch =>
    simp only [observationStep] at h
    split at h
    case isTrue => cases h
    case isFalse =>
      split at h
      case h_2 => cases h
      case h_1 snapshot last stored hloop =>
        cases h
        exact replay_keepsReferences
          (appendLoop_appended FakeRunLedger.numbering_nextSequence hloop).1.replayed
  | report failed =>
    cases h
    exact .refl s.snapshot
  | connect limit =>
    simp only [observationStep] at h
    split at h <;> cases h
    exact .refl s.snapshot
  | fetch limit =>
    obtain ⟨subscription, -, h⟩ := Option.bind_eq_some_iff.mp h
    split at h
    case isFalse => cases h
    case isTrue =>
      split at h <;> cases h <;> exact .refl s.snapshot
  | abandon =>
    cases h
    exact .refl s.snapshot
  | resume =>
    obtain ⟨subscription, -, h⟩ := Option.bind_eq_some_iff.mp h
    obtain ⟨tail, -, h⟩ := Option.bind_eq_some_iff.mp h
    split at h <;> cases h <;> exact .refl s.snapshot
  | receive =>
    obtain ⟨subscription, -, h⟩ := Option.bind_eq_some_iff.mp h
    split at h
    next => cases h
    next =>
      cases h
      exact .refl s.snapshot
  | drain =>
    obtain ⟨subscription, -, rfl⟩ := Option.map_eq_some_iff.mp h
    exact .refl s.snapshot

/-- **Runs keep the invariant**, when what the observer has to know of the last snapshot is so of
those before it. -/
theorem Observation.inv_run
    (law : Lawful wire (.ofAdmitted runId admitted) observer cursorOf body expected Scanned Known)
    (hstart : cursorSequence start = .ok c)
    (hearlier : ∀ u v, KeepsReferences u v → Known v → Known u) {events : List ObservationEvent}
    (h : run (observationStep wire observer cursorOf start) events
      (.initial (.ofAdmitted runId admitted)) = some s) (hknown : Known s.snapshot) :
    s.Inv wire runId admitted body expected Scanned c := by
  have hrun : Known s.snapshot → s.Inv wire runId admitted body expected Scanned c := by
    refine @run_invariant _ _ _ (fun s => Known s.snapshot →
      s.Inv wire runId admitted body expected Scanned c) (fun e s t hstep hs hafter => ?_) _ _ _ h
      fun _ => inv_initial
    have hbefore := hearlier _ _ (observationStep_keepsReferences hstep) hafter
    exact Inv.step law hstart hbefore hstep (hs hbefore)
  exact hrun hknown

/-- A subscription from a cursor that is not ahead of the run is accepted, when the observer can
start. -/
theorem Observation.Inv.connects
    (law : Lawful wire (.ofAdmitted runId admitted) observer cursorOf body expected Scanned Known)
    (h : s.Inv wire runId admitted body expected Scanned c) (hstart : cursorSequence start = .ok c)
    (hknown : Known s.snapshot) (hle : c ≤ s.events.length)
    (hbegin : ∀ subscriptionId cursor a, cursorSequence cursor = .ok a → a ≤ s.events.length →
      ∃ k ≤ a, FakeRunLedger.requested (observer.readFrom cursor) = .ok k ∧
        ∃ scan, observer.begin subscriptionId cursor s.snapshot = .ok scan) (limit : Nat) :
    ∃ t, observationStep wire observer cursorOf start (.connect limit) s = some t := by
  obtain ⟨a, hca, hcursor, ha, -⟩ := h.resumeFrom law hstart
  have ha : a ≤ s.events.length := by
    rcases ha with rfl | ha
    · exact hle
    · exact ha
  obtain ⟨k, hka, hk, scan, hscan⟩ :=
    hbegin ("v2-" ++ observer.kind ++ "-" ++ toString s.minted) _ a hcursor ha
  have hkle : k ≤ s.events.length := hka.trans ha
  obtain ⟨-, -, hscanned⟩ := law.begins _ _ a k _ _ scan hcursor h.sourced hknown hk hkle hscan
  obtain ⟨scan', notes, hscans, -, -⟩ := law.scans a _ _ s.events s.snapshot scan h.sourced
    (take_append_page_initial s.events k limit) hscanned
  obtain ⟨status, hstatus⟩ := sourced_status h.sourced
  simp only [observationStep, Observation.connect, readTail, Observer.establish, hk, hstatus, hscan,
    hscans, fromLedger, bind, Except.bind, if_neg (Nat.not_lt.mpr hkle)]
  exact ⟨_, rfl⟩

/-- What a client has received of a stream that loses nothing: without error, the notifications of
the first events that are about it, in order, and all of them, up to the event that ends the run,
once the stream has ended. Every event that the stream is about, after the cursor the client started
from, makes a notification. -/
structure Lossless (body : Note → Note) (expected : List StoredRunEvent → Nat → Option Note)
    (concerns : RunEvent → Bool) (c : Nat) (s : Observation Scan Note) : Prop where
  sound : s.faulted = false
  yielded : s.delivered.map body <+: selection (expected s.events) 0 s.events.length
  complete : s.ended = true →
    s.delivered.map body = selection (expected s.events) 0 s.events.length ∧
      ∃ result, (s.events.map StoredRunEvent.event).getLast? = some (.terminal result)
  covered : ∀ i stored, s.events[i]? = some stored →
    ((expected s.events i).isSome = true ↔ c < i + 1 ∧ concerns stored.event = true)

theorem Observation.Inv.lossless (h : s.Inv wire runId admitted body expected Scanned c)
    {concerns : RunEvent → Bool}
    (hcovered : ∀ i stored, s.events[i]? = some stored →
      ((expected c s.events i).isSome = true ↔ c < i + 1 ∧ concerns stored.event = true)) :
    Lossless body (expected c) concerns c s := by
  refine ⟨h.sound, h.delivered, fun hended => ?_, hcovered⟩
  obtain ⟨hterminal, hall⟩ := h.ended hended
  exact ⟨hall, replay_terminal rfl h.sourced.replayed hterminal⟩

end Runs

/-! ## Coverage -/

section Coverage

variable {Program : Type} {wire : Wire} {runId : RunId} {admitted : AdmittedRun Program}
  {snapshot : RunSnapshot} {events : List StoredRunEvent} {stored : StoredRunEvent} {c i : Nat}

/-- The event at a position is folded into the snapshot of those before it. -/
theorem sourced_foldedAt (h : Sourced wire (.ofAdmitted runId admitted) snapshot events)
    (hi : events[i]? = some stored) :
    ∃ projection next, Folded wire (.ofAdmitted runId admitted) events i stored projection next ∧
      ∃ status, statusFromSnapshot wire next = .ok status := by
  obtain ⟨hlt, rfl⟩ := List.getElem?_eq_some_iff.mp hi
  have hfront : events.take i ++ events[i] :: events.drop (i + 1) <+: events := by
    rw [← List.drop_eq_getElem_cons hlt, List.take_append_drop]
  have hreplayed := h.replayed
  rw [← List.take_append_drop i events, List.map_append] at hreplayed
  obtain ⟨projection, hprojection, -⟩ := replay_split hreplayed
  obtain ⟨next, hfolded, hnext⟩ := sourced_folded h hfront hprojection
  rw [List.length_take, Nat.min_eq_left hlt.le] at hfolded
  exact ⟨projection, next, hfolded, folded_status hnext⟩

theorem watchExpected_covered (h : Sourced wire (.ofAdmitted runId admitted) snapshot events)
    (hi : events[i]? = some stored) :
    (watchExpected wire (.ofAdmitted runId admitted) c events i).isSome = true ↔
      c < i + 1 ∧ changesPublicStatus stored.event = true := by
  obtain ⟨projection, next, hfolded, status, hstatus⟩ := sourced_foldedAt h hi
  unfold watchExpected
  rw [hi, Option.bind_some, hfolded.snapshot]
  by_cases hnotify : (decide (c < i + 1) && changesPublicStatus stored.event) = true
  · rw [if_pos hnotify]
    simpa [hstatus, Except.toOption] using hnotify
  · rw [if_neg hnotify]
    simpa using hnotify

/-- Whether a log stream is about an event. -/
def logMatches (filter : Option ExecutionId) : RunEvent → Bool
  | .safeLog execution _ _ _ _ => !(filter.isSome && filter ≠ execution)
  | _ => false

theorem logNotification_isSome {subscriptionId : String} {filter : Option ExecutionId}
    {note : Option RunLogEventNotification}
    (h : logNotification wire subscriptionId snapshot filter stored = .ok note) :
    note.isSome = logMatches filter stored.event := by
  unfold logNotification at h
  cases hevent : stored.event with
  | safeLog execution timestamp stream line diagnostic =>
    rw [hevent] at h
    simp only at h
    split at h
    case isTrue hother =>
      cases h
      rw [logMatches, hother]
      rfl
    case isFalse hmatch =>
      obtain ⟨selector, -, h⟩ := except_bind_eq_ok.mp h
      cases h
      rw [logMatches, Bool.eq_false_iff.mpr hmatch]
      rfl
  | _ =>
    rw [hevent] at h
    cases h
    rfl

theorem logsExpected_covered {filter : Option ExecutionId}
    (h : Sourced wire (.ofAdmitted runId admitted) snapshot events)
    (hi : events[i]? = some stored) :
    (logsExpected wire (.ofAdmitted runId admitted) filter c events i).isSome = true ↔
      c < i + 1 ∧ logMatches filter stored.event = true := by
  obtain ⟨projection, next, hfolded, -⟩ := sourced_foldedAt h hi
  unfold logsExpected
  rw [hi, Option.bind_some, hfolded.snapshot]
  by_cases hafter : c < i + 1
  · obtain ⟨note, hown, -⟩ := @logNotification_later wire next next "" filter stored rfl
      (KeepsReferences.refl next) fun _ _ _ _ _ hevent =>
        fun id hid => by
          have hstep := hfolded.step
          rw [hevent] at hstep
          obtain ⟨node, hnode⟩ := step_safeLog hstep id hid
          obtain ⟨node', hnode', -⟩ := (step_keepsReferences hstep).found id node hnode
          exact ⟨node', hnode'⟩
    have hsome := logNotification_isSome hown
    rw [if_pos hafter, Option.bind_some, hown]
    simp only [Except.toOption, Option.join_some, hsome, hafter, true_and]
  · rw [if_neg hafter]
    simp [hafter]

end Coverage

/-! ## Watch and logs -/

/-- **Lossless streams**: in every interleaving of appends, reports, reads and reconnects, what the
client of a watch or of a log stream has received is the beginning of what the stored events after
its cursor make, each status that of the events up to it; when `recv` returns `None` while the
runtime is not reported as failed, it is all of it. A subscription from a cursor that is not ahead
of the run is accepted, for a log stream when the run has the execution it selects. A log stream is
for one execution, whose selector no other execution of the run has. -/
theorem streams_lossless {Program : Type} (wire : Wire) (runId : RunId)
    (admitted : AdmittedRun Program) (start : Cursor) (c : Nat)
    (hstart : cursorSequence start = .ok c) :
    (∀ events s, run (observationStep wire (watchObserver wire) RunWatchEventNotification.cursor
        start) events (.initial (.ofAdmitted runId admitted)) = some s →
      Lossless watchBody (watchExpected wire (.ofAdmitted runId admitted) c) changesPublicStatus c
        s ∧
      (c ≤ s.events.length → ∀ limit, ∃ t, observationStep wire (watchObserver wire)
        RunWatchEventNotification.cursor start (.connect limit) s = some t)) ∧
    (∀ (filter : Option ExecutionRef) events s, run (observationStep wire
        (logsObserver wire (filter.map wire.executionToken)) RunLogEventNotification.cursor start)
        events (.initial (.ofAdmitted runId admitted)) = some s →
      Selects wire filter s.snapshot →
      Lossless logsBody (logsExpected wire (.ofAdmitted runId admitted)
        (filter.map ExecutionRef.execution) c) (logMatches (filter.map ExecutionRef.execution)) c
        s ∧
      (c ≤ s.events.length →
        (∀ reference ∈ filter, ∃ node ∈ OrdMap.values s.snapshot.executions,
          node.reference = reference) →
        ∀ limit, ∃ t, observationStep wire (logsObserver wire (filter.map wire.executionToken))
          RunLogEventNotification.cursor start (.connect limit) s = some t)) := by
  refine ⟨fun events s hrun => ?_, fun filter events s hrun hselects => ?_⟩
  · have hinv := Observation.inv_run watch_lawful hstart (fun _ _ _ _ => trivial) hrun trivial
    refine ⟨hinv.lossless fun i stored hi => watchExpected_covered hinv.sourced hi, ?_⟩
    intro hle limit
    refine hinv.connects watch_lawful hstart trivial hle
      (fun subscriptionId cursor a hcursor ha => ?_) limit
    refine ⟨0, Nat.zero_le a, rfl, ⟨subscriptionId, a, s.snapshot.replaySeed⟩, ?_⟩
    simp only [watchObserver, hcursor, hinv.sourced.sequence, fromLedger, bind, Except.bind,
      if_neg (Nat.not_lt.mpr ha)]
  · have hlaw := @logs_lawful Program wire runId admitted filter
    have hinv := Observation.inv_run hlaw hstart (fun _ _ => Selects.of_later) hrun hselects
    refine ⟨hinv.lossless fun i stored hi => logsExpected_covered hinv.sourced hi, ?_⟩
    intro hle hselected limit
    refine hinv.connects hlaw hstart hselects hle
      (fun subscriptionId cursor a hcursor ha => ?_) limit
    refine ⟨a, Nat.le_refl a, hcursor, ?_⟩
    cases filter with
    | none => exact ⟨⟨subscriptionId, none⟩, rfl⟩
    | some reference =>
      obtain ⟨node, hnode, hreference⟩ := hselected reference rfl
      obtain ⟨found, hfound⟩ : ∃ found, (OrdMap.values s.snapshot.executions).find? (fun node =>
          wire.executionToken node.reference = wire.executionToken reference) = some found := by
        rw [← Option.isSome_iff_exists, List.find?_isSome]
        exact ⟨node, hnode, by simp [hreference]⟩
      refine ⟨⟨subscriptionId, some found.reference.execution⟩, ?_⟩
      simp only [logsObserver, Option.map_some, resolvePublicExecution, hfound, bind, Except.bind]

/-! ## A sample stream -/

namespace Sample

def wire : Wire := Ledger.Sample.codec.wire

def test : NodeName := ⟨"test", by decide⟩

theorem second_bounded : 2 < 2 ^ 64 := by simp

def second (tag : IdentityTag) : PositiveIdentity tag := ⟨2, Nat.two_pos, second_bounded⟩

def other : ExecutionRef := ⟨Ledger.Sample.runId, test, second _, second _⟩

def start : Cursor := ⟨"v2:1"⟩

def logLine : SafeLogLine := ⟨"compiled", by decide, by decide⟩

def logged (reference : ExecutionRef) : RunEvent :=
  .safeLog (some reference.execution) PositiveInteger.one .output logLine none

/-- A run with two logged executions, read in pages that end before its last events, with a
reconnect in the middle. -/
def events : List ObservationEvent :=
  [.append [.runStarted,
      .nodeStarted Ledger.Sample.reference ⟨Ledger.Sample.build, []⟩ PositiveInteger.one .null],
    .connect 1, .fetch 1,
    .append [.nodeStarted other ⟨test, []⟩ PositiveInteger.one .null, logged other,
      logged Ledger.Sample.reference],
    .resume, .drain, .fetch 3,
    .append [logged Ledger.Sample.reference,
      .nodeCompleted ⟨Ledger.Sample.reference, .verified .null []⟩, logged other],
    .resume, .drain, .connect 2, .drain, .fetch 1, .abandon, .fetch 4, .resume, .drain,
    .append [.nodeCompleted ⟨other, .verified .null []⟩,
      .primaryGraphCompleted (.succeeded .null) false none, .terminal (.succeeded .null)],
    .fetch 4, .resume, .drain, .fetch 4, .resume, .drain, .fetch 4, .resume]

def seed : RunSnapshot := .ofAdmitted Ledger.Sample.runId Ledger.Sample.request.admitted

end Sample

/-- A client that starts after the first event receives every later status, and every line of the
one execution it selects. -/
theorem sampleStreams_lossless :
    (∃ s, run (observationStep Sample.wire (watchObserver Sample.wire)
        RunWatchEventNotification.cursor Sample.start) Sample.events (.initial Sample.seed) =
          some s ∧
      s.ended = true ∧
      s.delivered.map (·.cursor.asStr) = ["v2:2", "v2:3", "v2:7", "v2:9", "v2:11"] ∧
      Lossless watchBody (watchExpected Sample.wire Sample.seed 1) changesPublicStatus 1 s) ∧
    (∃ s, run (observationStep Sample.wire
        (logsObserver Sample.wire (some (Sample.wire.executionToken Ledger.Sample.reference)))
        RunLogEventNotification.cursor Sample.start) Sample.events (.initial Sample.seed) = some s ∧
      s.ended = true ∧ s.delivered.map (·.cursor.asStr) = ["v2:5", "v2:6"] ∧
      Lossless logsBody (logsExpected Sample.wire Sample.seed
        (some Ledger.Sample.reference.execution) 1)
        (logMatches (some Ledger.Sample.reference.execution)) 1 s) := by
  have hstart : cursorSequence Sample.start = .ok 1 := by decide
  have hwatch : (run (observationStep Sample.wire (watchObserver Sample.wire)
      RunWatchEventNotification.cursor Sample.start) Sample.events (.initial Sample.seed)).map
        (fun s => (s.ended, s.delivered.map (·.cursor.asStr))) =
      some (true, ["v2:2", "v2:3", "v2:7", "v2:9", "v2:11"]) := by decide
  have hlogs : (run (observationStep Sample.wire
      (logsObserver Sample.wire (some (Sample.wire.executionToken Ledger.Sample.reference)))
      RunLogEventNotification.cursor Sample.start) Sample.events (.initial Sample.seed)).map
        (fun s => (s.ended, s.delivered.map (·.cursor.asStr),
          decide (Selects Sample.wire (some Ledger.Sample.reference) s.snapshot))) =
      some (true, ["v2:5", "v2:6"], true) := by decide
  obtain ⟨s, hs, hresult⟩ := Option.map_eq_some_iff.mp hwatch
  obtain ⟨t, ht, hresult'⟩ := Option.map_eq_some_iff.mp hlogs
  obtain ⟨hended, hdelivered⟩ := Prod.mk.inj hresult
  obtain ⟨hended', hresult'⟩ := Prod.mk.inj hresult'
  obtain ⟨hdelivered', hselects⟩ := Prod.mk.inj hresult'
  have hlossless := streams_lossless Sample.wire Ledger.Sample.runId Ledger.Sample.request.admitted
    Sample.start 1 hstart
  exact ⟨⟨s, hs, hended, hdelivered, (hlossless.1 Sample.events s hs).1⟩,
    ⟨t, ht, hended', hdelivered', (hlossless.2 (some Ledger.Sample.reference) Sample.events t ht
      (of_decide_eq_true hselects)).1⟩⟩

end Zeroshot.Observability
