import Zeroshot.Delivery.Receipts
import Zeroshot.Supervisor.Resume

set_option autoImplicit false

/-!
# Delivery certification

Which execution of the delivery node certifies a run (`confirmed_delivery_execution`): the writer
that settled last, when it is the delivery, its receipt matches the admission and every other writer
had stopped before it was dispatched. The code picks the last writer and then checks the others; the
theorem says what that finds.

* **`delivery_certified`**: the certified execution, its uniqueness, and succeeded runs.
-/

namespace Zeroshot.Supervisor

open Ledger

/-! ## The admission -/

/-- The kinds of `NodeRuntimeBinding`. -/
inductive NodeRuntimeBinding
  | agent
  | decision
  | gitDelivery
  | commentDelivery
  deriving DecidableEq, Repr

/-- The parts of an admitted run that certification reads. -/
structure Admission where
  root : GraphNode
  initialInput : Value
  runtime : OrdMap NodeName NodeRuntimeBinding
  source : Option Delivery.DeliverySource

/-- `writer_nodes`. -/
def writerNodes (admission : Admission) : List NodeName :=
  ((Delivery.executableDeclarations admission.root).filter fun declaration =>
    OrdMap.get? admission.runtime declaration.1 ≠ some .decision).map Prod.fst

/-- The node whose receipt is to be confirmed. -/
def deliveryNode (admission : Admission) : Option NodeName :=
  match Delivery.soleDeliveryNode admission.root with
  | some (node, _) => some node
  | none => (Delivery.commentNode admission.root).map VerifierNode.name

section

variable (adapters : Delivery.SourceAdapters)

/-- `receipt_matches_admission`. -/
def receiptMatchesAdmission (admission : Admission) (output : Value) : Bool :=
  match Delivery.soleDeliveryNode admission.root with
  | some (_, mode) =>
    match admission.source with
    | none => false
    | some source =>
      match Delivery.sourceTarget source mode with
      | .error _ => false
      | .ok target => Delivery.isMatchingSuccessReceipt adapters output mode target
  | none =>
    match Delivery.resolveCommentDestination adapters admission.root admission.initialInput
        (admission.source.bind Delivery.DeliverySource.forge) with
    | none => false
    | some destination =>
      Delivery.isMatchingSuccessReceiptFor adapters output destination
        (admission.source.map Delivery.DeliverySource.revision)

/-! ## Confirmed deliveries -/

/-- A settled execution with its position. -/
def settledEntry (e : DurableExecution) : Option (HistoryPosition × DurableExecution) :=
  match e.state with
  | .settled position _ => some (position, e)
  | .active | .voided _ _ => none

/-- The later of two settled executions, the second one at equal positions. -/
def laterEntry (best : Option (HistoryPosition × DurableExecution))
    (entry : HistoryPosition × DurableExecution) : Option (HistoryPosition × DurableExecution) :=
  match best with
  | none => some entry
  | some previous => if entry.1 < previous.1 then some previous else some entry

/-- The settled writer with the largest position (`max_by_key` keeps the last one). -/
def lastWriter (writers : List NodeName) (history : List DurableExecution) :
    Option DurableExecution :=
  (((history.filter fun e => writers.contains e.occurrence.node).filterMap settledEntry).foldl
    laterEntry none).map Prod.snd

/-- Every other writer stopped before the last one was dispatched. -/
def writersSettled (writers : List NodeName) (history : List DurableExecution)
    (last : DurableExecution) : Bool :=
  history.all fun e =>
    decide (e.execution = last.execution) || !writers.contains e.occurrence.node ||
      e.finalPosition?.any fun position => position < last.dispatchPosition

/-- What the last writer certifies: its receipt, when it is a verifier's. -/
def certifiedBy (admission : Admission) (node : NodeName) (history : List DurableExecution)
    (last : DurableExecution) : Option ExecutionId :=
  if last.occurrence.node ≠ node then none
  else
    match last.state with
    | .settled _ (.verifier output _ _ _) =>
      if writersSettled (writerNodes admission) history last &&
          receiptMatchesAdmission adapters admission output then
        some last.execution
      else none
    | _ => none

/-- `confirmed_delivery_execution`. -/
def confirmedDeliveryExecution (admission : Admission) (snapshot : RunSnapshot) :
    Option ExecutionId := do
  let node ← deliveryNode admission
  let history ← (durableHistory snapshot).toOption
  let last ← lastWriter (writerNodes admission) history
  certifiedBy adapters admission node history last

/-! ## Terminal results -/

inductive DeliveryPolicy
  | optional
  | required
  deriving DecidableEq, Repr

def deliveryUnconfirmed : EnumLabel := ⟨"delivery_unconfirmed", by decide⟩

/-- `enforce_delivery_terminal`. -/
def enforceDeliveryTerminal (policy : DeliveryPolicy) (admission : Admission)
    (snapshot : RunSnapshot) (terminal : TerminalResult) : PrimaryGraphCompletion :=
  let deliveryExecution := confirmedDeliveryExecution adapters admission snapshot
  let requiresDeliveryExecution := policy = .required ||
    (Delivery.soleDeliveryNode admission.root).isSome ||
    (Delivery.commentNode admission.root).isSome
  let accepted := match terminal with
    | .succeeded _ => !requiresDeliveryExecution || deliveryExecution.isSome
    | .failed _ _ => true
  ⟨if accepted then terminal else .failed deliveryUnconfirmed none, false, deliveryExecution⟩

/-! ## Certificates -/

/-- The execution certifies the run: it settled with a matching receipt, and every other writer
execution ended before it was dispatched. -/
structure Certifies (admission : Admission) (node : NodeName) (history : List DurableExecution)
    (e : DurableExecution) : Prop where
  member : e ∈ history
  node : e.occurrence.node = node
  receipt : ∃ position output signals diagnostic artifacts,
    e.state = .settled position (.verifier output signals diagnostic artifacts) ∧
      receiptMatchesAdmission adapters admission output = true
  last : ∀ other ∈ history, other.occurrence.node ∈ writerNodes admission →
    other.execution ≠ e.execution →
      ∃ position, other.finalPosition? = some position ∧ position < e.dispatchPosition

end

/-! ## The last writer -/

theorem foldl_laterEntry (entries : List (HistoryPosition × DurableExecution))
    (first : HistoryPosition × DurableExecution) :
    ∃ last, entries.foldl laterEntry (some first) = some last ∧ last ∈ first :: entries ∧
      ∀ entry ∈ first :: entries, entry.1 ≤ last.1 := by
  induction entries generalizing first with
  | nil => exact ⟨first, rfl, List.mem_cons_self, by simp⟩
  | cons entry entries ih =>
    rw [List.foldl_cons, laterEntry]
    by_cases hlt : entry.1 < first.1
    · rw [if_pos hlt]
      obtain ⟨last, hlast, hmem, hle⟩ := ih first
      refine ⟨last, hlast, ?_, fun other hother => ?_⟩
      · simp only [List.mem_cons] at hmem ⊢
        tauto
      · simp only [List.mem_cons] at hother
        rcases hother with rfl | rfl | hother
        · exact hle _ List.mem_cons_self
        · exact hlt.le.trans (hle _ List.mem_cons_self)
        · exact hle _ (List.mem_cons_of_mem _ hother)
    · rw [if_neg hlt]
      obtain ⟨last, hlast, hmem, hle⟩ := ih entry
      refine ⟨last, hlast, List.mem_cons_of_mem _ hmem, fun other hother => ?_⟩
      rcases List.mem_cons.mp hother with rfl | hother
      · exact (not_lt.mp hlt).trans (hle _ List.mem_cons_self)
      · exact hle _ hother

section

variable {writers : List NodeName} {history : List DurableExecution} {last e : DurableExecution}
  {position : HistoryPosition} {outcome : WorkerOutcome}

theorem mem_settledWriters {entry : HistoryPosition × DurableExecution} :
    entry ∈ (history.filter fun e => writers.contains e.occurrence.node).filterMap settledEntry ↔
      entry.2 ∈ history ∧ entry.2.occurrence.node ∈ writers ∧
        ∃ outcome, entry.2.state = .settled entry.1 outcome := by
  rw [List.mem_filterMap]
  constructor
  · rintro ⟨e, he, hentry⟩
    obtain ⟨hmem, hwriter⟩ := List.mem_filter.mp he
    unfold settledEntry at hentry
    cases hstate : e.state with
    | active | voided =>
      rw [hstate] at hentry
      cases hentry
    | settled position outcome =>
      rw [hstate] at hentry
      cases hentry
      exact ⟨hmem, List.contains_iff_mem.mp hwriter, outcome, hstate⟩
  · rintro ⟨hmem, hwriter, outcome, hstate⟩
    refine ⟨entry.2, List.mem_filter.mpr ⟨hmem, List.contains_iff_mem.mpr hwriter⟩, ?_⟩
    unfold settledEntry
    rw [hstate]

theorem lastWriter_eq_some (h : lastWriter writers history = some last) :
    last ∈ history ∧ last.occurrence.node ∈ writers ∧
      ∃ position outcome, last.state = .settled position outcome ∧
        ∀ e ∈ history, e.occurrence.node ∈ writers →
          ∀ position' outcome', e.state = .settled position' outcome' → position' ≤ position := by
  obtain ⟨entry, hentry, rfl⟩ := Option.map_eq_some_iff.mp h
  have hmem := @mem_settledWriters writers history
  revert hentry hmem
  generalize (history.filter fun e => writers.contains e.occurrence.node).filterMap settledEntry =
    entries
  intro hentry hmem
  cases entries with
  | nil => cases hentry
  | cons first entries =>
    obtain ⟨found, hfound, hin, hle⟩ := foldl_laterEntry entries first
    rw [List.foldl_cons] at hentry
    cases hfound.symm.trans hentry
    obtain ⟨hhistory, hwriter, outcome, hstate⟩ := hmem.mp hin
    refine ⟨hhistory, hwriter, entry.1, outcome, hstate, fun e he hw position' outcome' hs => ?_⟩
    exact hle (position', e) (hmem.mpr ⟨he, hw, outcome', hs⟩)

theorem exists_lastWriter (he : e ∈ history) (hwriter : e.occurrence.node ∈ writers)
    (hstate : e.state = .settled position outcome) :
    ∃ last, lastWriter writers history = some last := by
  have hmem : (position, e) ∈
      (history.filter fun e => writers.contains e.occurrence.node).filterMap settledEntry :=
    mem_settledWriters.mpr ⟨he, hwriter, outcome, hstate⟩
  unfold lastWriter
  revert hmem
  generalize (history.filter fun e => writers.contains e.occurrence.node).filterMap settledEntry =
    entries
  intro hmem
  cases entries with
  | nil => cases hmem
  | cons first entries =>
    obtain ⟨found, hfound, -, -⟩ := foldl_laterEntry entries first
    refine ⟨found.2, ?_⟩
    rw [List.foldl_cons]
    exact congrArg (Option.map Prod.snd) hfound

theorem writersSettled_iff : writersSettled writers history last = true ↔
    ∀ e ∈ history, e.occurrence.node ∈ writers → e.execution ≠ last.execution →
      ∃ position, e.finalPosition? = some position ∧ position < last.dispatchPosition := by
  unfold writersSettled
  simp only [List.all_eq_true, Bool.or_eq_true, decide_eq_true_eq, Bool.not_eq_true',
    Option.any_eq_true]
  refine forall_congr' fun e => forall_congr' fun _ => ?_
  rw [← Bool.not_eq_true, List.contains_iff_mem]
  tauto

end

/-! ## Histories of the ledger -/

theorem Entry.ordered {wire : Wire} {n offset : Nat} {id : ExecutionId} {node : NodeSnapshot}
    {e : DurableExecution} (h : Entry offset node e) (hrecorded : Recorded wire n id node)
    {position : HistoryPosition} (hposition : e.finalPosition? = some position) :
    e.dispatchPosition < position := by
  obtain ⟨a, hpos, -, hstarted, hsettled⟩ := hrecorded.timely
  have hdispatched := h.dispatched a hstarted
  have hstate := h.state
  unfold DurableExecution.finalPosition? at hposition
  revert hsettled hposition hstate
  generalize node.state = final
  generalize e.state = state
  intro hposition hsettled hstate
  cases hstate with
  | active => cases hposition
  | completed moved =>
    cases hposition
    obtain ⟨b, -, hcursor, hab⟩ := hsettled _ rfl
    have hmoved := moved b hcursor
    exact Fin.lt_def.mpr (by omega)
  | voided moved =>
    cases hposition
    obtain ⟨b, -, hcursor, hab⟩ := hsettled _ rfl
    have hmoved := moved b hcursor
    exact Fin.lt_def.mpr (by omega)

section

variable {wire : Wire} {n : Nat} {s : RunSnapshot} {history : List DurableExecution}

theorem durableHistory_perm (h : durableHistory s = .ok history) :
    ∃ moved, List.Forall₂ (fun e' e => Entry (seedOffset s.executionSeed) e'.2 e) s.executions
        moved ∧
      history.Perm (s.executionSeed ++ moved) := by
  obtain ⟨moved, hmoved, hsorted⟩ := except_bind_eq_ok.mp h
  rw [collectOk_eq_ok, OrdMap.values, List.forall₂_map_left_iff] at hmoved
  cases hsorted
  exact ⟨moved, hmoved.imp fun _ _ => entry_of_durable,
    (List.perm_insertionSort _ _).trans List.perm_append_comm⟩

/-- **No identity occurs twice** in the history of a run. -/
theorem Stored.unique (h : Stored wire n s) (hhistory : durableHistory s = .ok history)
    {a b : DurableExecution} (ha : a ∈ history) (hb : b ∈ history)
    (heq : a.execution = b.execution) : a = b := by
  obtain ⟨moved, hentries, hperm⟩ := durableHistory_perm hhistory
  have hkeys := keys_of_entries hentries fun e he => (h.recorded e he).identity
  have hseparate : ∀ prior ∈ s.executionSeed, ∀ e ∈ moved, prior.execution ≠ e.execution := by
    intro prior hprior e he
    obtain ⟨e', he', hentry⟩ := Logged.forall₂_mem_right hentries he
    rw [hentry.execution, (h.recorded e' he').identity]
    exact h.unseeded prior hprior e' he'
  have hmoved : moved.Pairwise fun a b => a.execution ≠ b.execution := by
    have hsorted : (OrdMap.keys s.executions).Pairwise fun a b => a ≠ b := by
      rw [OrdMap.keys, List.pairwise_map]
      refine h.sorted.imp fun {a b} hlt hkey => ?_
      rw [hkey] at hlt
      exact lt_irrefl _ hlt
    rwa [← hkeys, List.pairwise_map] at hsorted
  have hseed : s.executionSeed.Pairwise fun a b => a.execution ≠ b.execution := by
    refine h.seedOrdered.imp fun {a b} hbefore hidentity => ?_
    have hlt := hbefore.1
    rw [hidentity] at hlt
    exact lt_irrefl _ hlt
  have hdistinct : (s.executionSeed ++ moved).Pairwise fun a b => a.execution ≠ b.execution :=
    List.pairwise_append.mpr ⟨hseed, hmoved, hseparate⟩
  by_contra hne
  have hsymmetric : Std.Symm fun a b : DurableExecution => a.execution ≠ b.execution :=
    ⟨fun _ _ hne => hne.symm⟩
  exact hdistinct.forall (hperm.mem_iff.mp ha) (hperm.mem_iff.mp hb) hne heq

theorem Stored.ordered (h : Stored wire n s) (hhistory : durableHistory s = .ok history)
    {node : NodeName}
    (hseed : ∀ prior ∈ s.executionSeed, prior.occurrence.node = node →
      ∀ position outcome, prior.state = .settled position outcome →
        prior.dispatchPosition ≤ position)
    {e : DurableExecution} (he : e ∈ history) (hnode : e.occurrence.node = node)
    {position : HistoryPosition} {outcome : WorkerOutcome}
    (hstate : e.state = .settled position outcome) : e.dispatchPosition ≤ position := by
  obtain ⟨moved, hentries, hperm⟩ := durableHistory_perm hhistory
  rcases List.mem_append.mp (hperm.mem_iff.mp he) with he | he
  · exact hseed e he hnode position outcome hstate
  · obtain ⟨e', he', hentry⟩ := Logged.forall₂_mem_right hentries he
    have hposition : e.finalPosition? = some position := by
      rw [DurableExecution.finalPosition?, hstate]
    exact (hentry.ordered (h.recorded e' he') hposition).le

end

/-! ## Certification -/

section

variable {adapters : Delivery.SourceAdapters} {admission : Admission} {node : NodeName}
  {wire : Wire} {n : Nat} {s : RunSnapshot} {history : List DurableExecution}

theorem certifiedBy_eq_some {last : DurableExecution} {id : ExecutionId} :
    certifiedBy adapters admission node history last = some id ↔
      last.occurrence.node = node ∧ last.execution = id ∧
        writersSettled (writerNodes admission) history last = true ∧
        ∃ position output signals diagnostic artifacts,
          last.state = .settled position (.verifier output signals diagnostic artifacts) ∧
            receiptMatchesAdmission adapters admission output = true := by
  unfold certifiedBy
  by_cases hnode : last.occurrence.node = node
  · rw [if_neg (not_not_intro hnode)]
    cases hstate : last.state with
    | active => simp
    | voided => simp
    | settled position outcome =>
      cases outcome with
      | verified => simp
      | error => simp
      | verifier output signals diagnostic artifacts =>
        dsimp only
        by_cases hboth : (writersSettled (writerNodes admission) history last &&
            receiptMatchesAdmission adapters admission output) = true
        · rw [if_pos hboth]
          rw [Bool.and_eq_true] at hboth
          constructor
          · intro hid
            cases hid
            exact ⟨hnode, rfl, hboth.1, position, output, signals, diagnostic, artifacts, rfl,
              hboth.2⟩
          · rintro ⟨-, rfl, -⟩
            rfl
        · rw [if_neg hboth]
          constructor
          · intro hid
            cases hid
          · rintro ⟨-, -, hsettled, _, _, _, _, _, heq, hreceipt⟩
            cases heq
            rw [hsettled, hreceipt] at hboth
            exact absurd rfl hboth
  · rw [if_pos hnode]
    constructor
    · intro hid
      cases hid
    · rintro ⟨heq, -⟩
      exact absurd heq hnode

theorem certifies_of_lastWriter {last : DurableExecution} {id : ExecutionId}
    (hlast : lastWriter (writerNodes admission) history = some last)
    (hcertified : certifiedBy adapters admission node history last = some id) :
    Certifies adapters admission node history last ∧ last.execution = id := by
  obtain ⟨hnode, hid, hsettled, hreceipt⟩ := certifiedBy_eq_some.mp hcertified
  obtain ⟨hmem, -⟩ := lastWriter_eq_some hlast
  exact ⟨⟨hmem, hnode, hreceipt, writersSettled_iff.mp hsettled⟩, hid⟩

/-- A certifying execution is the last writer, since every other one ended before its dispatch. -/
theorem lastWriter_of_certifies (hs : Stored wire n s) (hhistory : durableHistory s = .ok history)
    (hwriter : node ∈ writerNodes admission)
    (hseed : ∀ prior ∈ s.executionSeed, prior.occurrence.node = node →
      ∀ position outcome, prior.state = .settled position outcome →
        prior.dispatchPosition ≤ position)
    {e : DurableExecution} (he : Certifies adapters admission node history e) :
    lastWriter (writerNodes admission) history = some e := by
  obtain ⟨position, output, signals, diagnostic, artifacts, hstate, -⟩ := he.receipt
  have hordered := hs.ordered hhistory hseed he.member he.node hstate
  have hnode : e.occurrence.node ∈ writerNodes admission := he.node.symm ▸ hwriter
  obtain ⟨last, hlast⟩ := exists_lastWriter he.member hnode hstate
  obtain ⟨hmem, hlastWriter, position', outcome', hstate', hle⟩ := lastWriter_eq_some hlast
  by_cases hsame : last.execution = e.execution
  · rw [hlast, hs.unique hhistory hmem he.member hsame]
  · obtain ⟨final, hfinal', hlt⟩ := he.last last hmem hlastWriter hsame
    have hposition : final = position' := by
      rw [DurableExecution.finalPosition?, hstate'] at hfinal'
      exact (Option.some.inj hfinal').symm
    have hmax := hle e he.member hnode position _ hstate
    subst hposition
    exact absurd (hlt.trans_le hordered) (not_lt.mpr hmax)

/-- **The confirmed execution** is the one that certifies the run. -/
theorem confirmedDeliveryExecution_eq_some (hs : Stored wire n s)
    (hdelivery : deliveryNode admission = some node) (hwriter : node ∈ writerNodes admission)
    (hseed : ∀ prior ∈ s.executionSeed, prior.occurrence.node = node →
      ∀ position outcome, prior.state = .settled position outcome →
        prior.dispatchPosition ≤ position)
    {id : ExecutionId} :
    confirmedDeliveryExecution adapters admission s = some id ↔
      ∃ history e, durableHistory s = .ok history ∧
        Certifies adapters admission node history e ∧ e.execution = id := by
  unfold confirmedDeliveryExecution
  rw [hdelivery]
  constructor
  · intro h
    obtain ⟨found, hfound, h⟩ := Option.bind_eq_some_iff.mp h
    cases hfound
    obtain ⟨history, hhistory, h⟩ := Option.bind_eq_some_iff.mp h
    obtain ⟨last, hlast, hcertified⟩ := Option.bind_eq_some_iff.mp h
    obtain ⟨hcertifies, hid⟩ := certifies_of_lastWriter hlast hcertified
    exact ⟨history, last, eq_ok_of_toOption hhistory, hcertifies, hid⟩
  · rintro ⟨history, e, hhistory, hcertifies, hid⟩
    have hlast := lastWriter_of_certifies hs hhistory hwriter hseed hcertifies
    refine Option.bind_eq_some_iff.mpr ⟨node, rfl, ?_⟩
    refine Option.bind_eq_some_iff.mpr ⟨history, by rw [hhistory]; rfl, ?_⟩
    refine Option.bind_eq_some_iff.mpr ⟨e, hlast, certifiedBy_eq_some.mpr ?_⟩
    exact ⟨hcertifies.node, hid, writersSettled_iff.mpr hcertifies.last, hcertifies.receipt⟩

theorem enforceDeliveryTerminal_succeeded (hdelivery : deliveryNode admission = some node)
    {policy : DeliveryPolicy} {terminal : TerminalResult} {output : Value}
    (h : (enforceDeliveryTerminal adapters policy admission s terminal).result =
      .succeeded output) :
    ∃ id, confirmedDeliveryExecution adapters admission s = some id ∧
      (enforceDeliveryTerminal adapters policy admission s terminal).deliveryExecution =
        some id := by
  have hrequired : ((Delivery.soleDeliveryNode admission.root).isSome ||
      (Delivery.commentNode admission.root).isSome) = true := by
    unfold deliveryNode at hdelivery
    cases hsole : Delivery.soleDeliveryNode admission.root with
    | some selected => rfl
    | none =>
      rw [hsole] at hdelivery
      obtain ⟨comment, hcomment, -⟩ := Option.map_eq_some_iff.mp hdelivery
      rw [hcomment]
      rfl
  unfold enforceDeliveryTerminal at h ⊢
  dsimp only at h ⊢
  cases hconfirmed : confirmedDeliveryExecution adapters admission s with
  | some id => exact ⟨id, rfl, rfl⟩
  | none =>
    rw [hconfirmed, Bool.or_assoc, hrequired] at h
    cases terminal with
    | failed reason context => cases h
    | succeeded output' =>
      simp at h

end

/-- **Delivery certification is exact**, when no seed execution of the delivery node settles before
the position it was dispatched at: an execution is confirmed just when it certifies the run, at most
one does, and a succeeded result of a run with a delivery has one. -/
theorem delivery_certified (adapters : Delivery.SourceAdapters) {wire : Wire} {runId : RunId}
    {admitted : AdmittedRun Admission} {events : List Ledger.RunEvent} {s : RunSnapshot}
    {node : NodeName} (hrun : replay (step wire) 0 (.ofAdmitted runId admitted) events = some s)
    (hdelivery : deliveryNode admitted.program = some node)
    (hwriter : node ∈ writerNodes admitted.program)
    (hseed : ∀ prior ∈ s.executionSeed, prior.occurrence.node = node →
      ∀ position outcome, prior.state = .settled position outcome →
        prior.dispatchPosition ≤ position) :
    (∀ id, confirmedDeliveryExecution adapters admitted.program s = some id ↔
      ∃ history e, durableHistory s = .ok history ∧
        Certifies adapters admitted.program node history e ∧ e.execution = id) ∧
    (∀ history e e', durableHistory s = .ok history →
      Certifies adapters admitted.program node history e →
      Certifies adapters admitted.program node history e' → e = e') ∧
    ∀ policy terminal output,
      (enforceDeliveryTerminal adapters policy admitted.program s terminal).result =
          .succeeded output →
        ∃ history e, durableHistory s = .ok history ∧
          Certifies adapters admitted.program node history e ∧
          (enforceDeliveryTerminal adapters policy admitted.program s terminal).deliveryExecution =
            some e.execution := by
  have hs := replay_stored hrun
  have hexact := fun id => @confirmedDeliveryExecution_eq_some adapters admitted.program node wire
    events.length s hs hdelivery hwriter hseed id
  refine ⟨hexact, fun history e e' hhistory he he' => ?_, fun policy terminal output hresult => ?_⟩
  · have hlast := lastWriter_of_certifies hs hhistory hwriter hseed he
    have hlast' := lastWriter_of_certifies hs hhistory hwriter hseed he'
    rw [hlast] at hlast'
    exact Option.some.inj hlast'
  · obtain ⟨id, hconfirmed, hexecution⟩ := enforceDeliveryTerminal_succeeded hdelivery hresult
    obtain ⟨history, e, hhistory, hcertifies, rfl⟩ := (hexact id).mp hconfirmed
    exact ⟨history, e, hhistory, hcertifies, hexecution⟩

namespace Sample

open Zeroshot.Sample

def pushWorker : WorkerRef := ⟨"builtin.git-delivery.push@1", by decide⟩

/-- A step, and then a verifier that pushes. -/
def pushRoot : GraphNode :=
  .seq (group s) [step a, .verifier ⟨b, pushWorker, .null, .null, [], [], none,
    PositiveInteger.one, [], .null, none⟩]

def baseRevision : String := "aaaaaaaaaaaaaaaaaaaaaaaaaaaaaaaaaaaaaaaa"

def headRevision : String := "bbbbbbbbbbbbbbbbbbbbbbbbbbbbbbbbbbbbbbbb"

def pushAdmission : Admission where
  root := pushRoot
  initialInput := .null
  runtime := [(a, .agent), (b, .gitDelivery)]
  source := some ⟨"acme/app", "main", baseRevision, none⟩

def pushAdmitted : AdmittedRun Admission := ⟨"push", none, .small, pushAdmission⟩

/-- No forge adapter is asked about a push without links. -/
def noAdapters : Delivery.SourceAdapters where
  samePublicOrigin _ _ := false
  commentDestination _ _ := none
  validReviewScope _ _ := false
  validCommentDestination _ := false
  validCommentPermalink _ _ _ := false

def receipt : Value := .object [("headBranch", .string "work"),
  ("headRevision", .string headRevision), ("mode", .string "push"), ("outcome", .string "pushed"),
  ("repository", .string "acme/app"), ("targetBranch", .string "main"), ("version", .string "v1")]

def pushed : WorkerOutcome := .verifier receipt [] .null []

/-- An imported step, and a push that was voided before the position it was dispatched at. -/
def importedSeed : List DurableExecution :=
  [attempt 0 a [] 1 (.settled (position 2) done),
    attempt 1 b [] 10 (.voided (position 3) .parallelJoin)]

/-- After the import another push completes. -/
def pushEvents : List Ledger.RunEvent :=
  importedSeed.map .priorExecution ++
    [.runStarted,
      .nodeStarted (reference Ledger.Sample.runId 2 b) ⟨b, []⟩ PositiveInteger.one .null,
      .nodeCompleted ⟨reference Ledger.Sample.runId 2 b, pushed⟩]

/-- An imported push that was dispatched at 10 and settled at 3. -/
def backwardsPush : DurableExecution := attempt 1 b [] 10 (.settled (position 3) pushed)

/-- The push after a step that settled at 5. -/
def backwardsSeed : List DurableExecution :=
  [attempt 0 a [] 1 (.settled (position 5) done), backwardsPush]

end Sample

/-- A continued run is certified by its own push. -/
theorem pushedRun_certified :
    ∃ s, replay (step Ledger.Sample.codec.wire) 0
        (.ofAdmitted Ledger.Sample.runId Sample.pushAdmitted) Sample.pushEvents = some s ∧
      s.executionSeed = Sample.importedSeed ∧
      ∃ history e, durableHistory s = .ok history ∧
        Certifies Sample.noAdapters Sample.pushAdmission Zeroshot.Sample.b history e ∧
        e.execution = Zeroshot.Sample.execution 2 := by
  have hreplay : (replay (step Ledger.Sample.codec.wire) 0
      (.ofAdmitted Ledger.Sample.runId Sample.pushAdmitted) Sample.pushEvents).map
        (fun s => (s.executionSeed,
          confirmedDeliveryExecution Sample.noAdapters Sample.pushAdmission s)) =
      some (Sample.importedSeed, some (Zeroshot.Sample.execution 2)) := by decide +kernel
  obtain ⟨s, hs, hproperties⟩ := Option.map_eq_some_iff.mp hreplay
  obtain ⟨hseed, hconfirmed⟩ := Prod.mk.inj hproperties
  have hdelivery : deliveryNode Sample.pushAdmitted.program = some Zeroshot.Sample.b := by
    decide
  have hwriter : Zeroshot.Sample.b ∈ writerNodes Sample.pushAdmitted.program := by
    decide
  have hforward : ∀ prior ∈ s.executionSeed, prior.occurrence.node = Zeroshot.Sample.b →
      ∀ position outcome, prior.state = .settled position outcome →
        prior.dispatchPosition ≤ position := by
    rw [hseed]
    intro prior hprior hnode position outcome hstate
    rcases List.mem_cons.mp hprior with rfl | hprior
    · exact absurd hnode (by decide)
    · rw [List.mem_singleton.mp hprior] at hstate
      cases hstate
  obtain ⟨hexact, -⟩ := delivery_certified Sample.noAdapters hs hdelivery hwriter hforward
  exact ⟨s, hs, hseed, (hexact _).mp hconfirmed⟩

/-- **A backwards seed** is accepted, and its push certifies the run without being confirmed. -/
theorem backwardsSeed_not_confirmed :
    ∃ s, replay (step Ledger.Sample.codec.wire) 0
        (.ofAdmitted Ledger.Sample.runId Sample.pushAdmitted)
        (Sample.backwardsSeed.map .priorExecution) = some s ∧
      deliveryNode Sample.pushAdmission = some Zeroshot.Sample.b ∧
      Zeroshot.Sample.b ∈ writerNodes Sample.pushAdmission ∧
      durableHistory s = .ok Sample.backwardsSeed ∧
      Certifies Sample.noAdapters Sample.pushAdmission Zeroshot.Sample.b Sample.backwardsSeed
        Sample.backwardsPush ∧
      confirmedDeliveryExecution Sample.noAdapters Sample.pushAdmission s = none := by
  have hreplay : (replay (step Ledger.Sample.codec.wire) 0
      (.ofAdmitted Ledger.Sample.runId Sample.pushAdmitted)
      (Sample.backwardsSeed.map .priorExecution)).map
        (fun s => (durableHistory s,
          confirmedDeliveryExecution Sample.noAdapters Sample.pushAdmission s)) =
      some (.ok Sample.backwardsSeed, none) := by decide
  obtain ⟨s, hs, hproperties⟩ := Option.map_eq_some_iff.mp hreplay
  obtain ⟨hhistory, hconfirmed⟩ := Prod.mk.inj hproperties
  have hreceipt : receiptMatchesAdmission Sample.noAdapters Sample.pushAdmission Sample.receipt =
      true := by decide +kernel
  refine ⟨s, hs, by decide, by decide, hhistory, ?_, hconfirmed⟩
  refine ⟨?_, rfl, ⟨_, _, _, _, _, rfl, hreceipt⟩, ?_⟩
  · exact List.mem_cons_of_mem _ List.mem_cons_self
  · intro other hother _ hne
    rcases List.mem_cons.mp hother with rfl | hother
    · exact ⟨Zeroshot.Sample.position 5, rfl, by decide⟩
    · rw [List.mem_singleton.mp hother] at hne
      exact absurd rfl hne

end Zeroshot.Supervisor
