import Zeroshot.Runner.Sessions

set_option autoImplicit false

/-!
# The custody of sessions

Who answers for a session: the task that opened it, until it is installed in the pool or handed to
an execution; the pool, while its entry is live; a task or a call of `close_run`, while it is about
to close it. A session whose inner `close` is running has a party that waits for it.

* `Inv`: the invariant, with the registry, the opening markers and the progress of `close_run`;
* `Inv.move`, `Inv.insertEntry`, …: one lemma for each way a step changes the runner;
* `Inv.stepTask`: every step of a task keeps it.
-/

namespace Zeroshot.Runner

open Machine Ledger

/-! ## What a phase is responsible for -/

/-- The marker a task fills once its open has ended. -/
def Arm.marker : Arm → Option Nat
  | .ready _ => none
  | .factory marker => marker
  | .openedLive marker _ _ => marker
  | .pooledLive _ _ => none

def Arm.session : Arm → Option Nat
  | .ready _ => none
  | .factory _ => none
  | .openedLive _ session _ => some session
  | .pooledLive session _ => some session

def Arm.held : Arm → Option Nat
  | .ready _ => none
  | .factory _ => none
  | .openedLive _ session _ => some session
  | .pooledLive _ _ => none

/-- A lease of an execution is the only one that knows its session. -/
def SessionBinding.held (lease : SessionBinding) : Option Nat :=
  match lease.kind with
  | .execution => some lease.session
  | .reusable _ => none

def Phase.marker : Phase → Option Nat
  | .select arm _ => arm.marker
  | .finishOpen marker _ => some marker
  | .close _ resume => resume.map Prod.fst
  | .closing _ resume => resume.map Prod.fst
  | .checkout | .invalidate _ _ _ | .bind _ | .drive _ | .finishLease _ _ | .returned
  | .finished => none

/-- The session a phase speaks of. -/
def Phase.session : Phase → Option Nat
  | .select arm _ => arm.session
  | .finishOpen _ (.ok session) => some session
  | .invalidate _ session _ => some session
  | .close session _ => some session
  | .closing session _ => some session
  | .bind lease => some lease.session
  | .drive lease => some lease.session
  | .finishLease lease _ => some lease.session
  | .checkout | .finishOpen _ (.error _) | .returned | .finished => none

/-- The session a phase will install in the pool or close. -/
def Phase.held : Phase → Option Nat
  | .select arm _ => arm.held
  | .finishOpen _ (.ok session) => some session
  | .invalidate _ session _ => some session
  | .close session _ => some session
  | .bind lease => lease.held
  | .drive lease => lease.held
  | .finishLease lease _ => lease.held
  | .checkout | .finishOpen _ (.error _) | .closing _ _ | .returned | .finished => none

/-- The session whose inner `close` is running. -/
def Phase.inClose : Phase → Option Nat
  | .closing session _ => some session
  | _ => none

/-- The task fills its marker with nothing but the loss of the key. -/
def Task.Stopping (t : Task) (marker : Nat) : Prop :=
  t.phase = .finishOpen marker (.error .cancelled) ∨
    (t.cancel = true ∧ t.phase = .select (.factory (some marker)) false)

def EntryToClose.managed : EntryToClose → Option Nat
  | .session number => some number
  | .opening _ => none

def ActivityCloseTarget.managed (target : ActivityCloseTarget) : Option Nat :=
  target.binding.map SessionBinding.session

/-- The sessions a call of `close_run` is about to close. -/
def CloseRun.held : CloseRun → List Nat
  | .boundClose session _ _ => [session]
  | .entries rest _ => rest.filterMap EntryToClose.managed
  | .entryClosing _ rest _ => rest.filterMap EntryToClose.managed
  | .idle | .cancelling _ _ | .bound _ _ | .boundClosing _ _ _ | .waiting _ => []

/-- The bound sessions a call of `close_run` has still to look at. -/
def CloseRun.bindings : CloseRun → List Nat
  | .cancelling _ targets => targets.filterMap ActivityCloseTarget.managed
  | .bound rest _ => rest.filterMap ActivityCloseTarget.managed
  | .boundClose _ rest _ => rest.filterMap ActivityCloseTarget.managed
  | .boundClosing _ rest _ => rest.filterMap ActivityCloseTarget.managed
  | .idle | .entries _ _ | .entryClosing _ _ _ | .waiting _ => []

def CloseRun.inClose : CloseRun → Option Nat
  | .boundClosing session _ _ => some session
  | .entryClosing session _ _ => some session
  | _ => none

/-- The tasks a call of `close_run` has still to wait for. -/
def CloseRun.awaited : CloseRun → List Nat
  | .idle => []
  | .cancelling _ targets => targets.map ActivityCloseTarget.task
  | .bound _ targets => targets.map ActivityCloseTarget.task
  | .boundClose _ _ targets => targets.map ActivityCloseTarget.task
  | .boundClosing _ _ targets => targets.map ActivityCloseTarget.task
  | .entries _ targets => targets.map ActivityCloseTarget.task
  | .entryClosing _ _ targets => targets.map ActivityCloseTarget.task
  | .waiting rest => rest.map ActivityCloseTarget.task

/-- The tasks a call of `close_run` has still to cancel. -/
def CloseRun.uncancelled : CloseRun → List Nat
  | .cancelling rest _ => rest.map ActivityCloseTarget.task
  | _ => []

/-- The pool entries of the run have been taken out. -/
def CloseRun.swept : CloseRun → Bool
  | .entries _ _ => true
  | .entryClosing _ _ _ => true
  | .waiting _ => true
  | _ => false

/-! ## The invariant -/

namespace NodeRunner

variable (s : NodeRunner)

/-- The session was opened for the run. -/
def SessionOf (session : Nat) (run : RunId) : Prop :=
  ∃ managed, s.sessions[session]? = some managed ∧ managed.runId = run

/-- A party will see to the session. -/
def Owned (session : Nat) : Prop :=
  (∃ (i : Nat) (t : Task), s.tasks[i]? = some t ∧ t.phase.held = some session) ∨
    (∃ key, OrdMap.get? s.entries key = some (.live session)) ∨
      ∃ run, session ∈ (s.closes run).held

/-- A party waits for the inner `close` of the session. -/
def InClose (session : Nat) : Prop :=
  (∃ (i : Nat) (t : Task), s.tasks[i]? = some t ∧ t.phase.inClose = some session) ∨
    ∃ run, (s.closes run).inClose = some session

/-- No entry of the run may become live any more. -/
def Swept (run : RunId) : Prop :=
  (s.closes run).swept = true ∨ run ∈ s.closeReturned

/-- What a swept run may have at a key. -/
def Spent (entry : SessionEntry) : Prop :=
  entry = .lost ∨ ∃ marker, entry = .opening marker ∧
    ∃ (i : Nat) (t : Task), s.tasks[i]? = some t ∧ t.Stopping marker

end NodeRunner

structure Inv (s : NodeRunner) : Prop where
  calls : ∀ managed ∈ s.sessions, managed.closeCalls = managed.closed.toNat
  owned : ∀ (session : Nat) (managed : ManagedSession), s.sessions[session]? = some managed →
    managed.closed = false → s.Owned session
  inClose : ∀ (session : Nat) (managed : ManagedSession), s.sessions[session]? = some managed →
    managed.closed = true → managed.closeReturned = false → s.InClose session
  taskSession : ∀ (i : Nat) (t : Task) session, s.tasks[i]? = some t →
    t.phase.session = some session → s.SessionOf session t.key.runId
  entrySession : ∀ key session, (key, .live session) ∈ s.entries → s.SessionOf session key.runId
  activeSession : ∀ key active binding, (key, active) ∈ s.active → active.binding = some binding →
    s.SessionOf binding.session key.runId
  closeHeld : ∀ run, ∀ session ∈ (s.closes run).held, s.SessionOf session run
  closeInClose : ∀ run session, (s.closes run).inClose = some session → s.SessionOf session run
  closeBindings : ∀ run, ∀ session ∈ (s.closes run).bindings, s.SessionOf session run
  registered : ∀ (i : Nat) (t : Task), s.tasks[i]? = some t → t.phase ≠ .finished →
    ∃ binding, OrdMap.get? s.active t.key = some ⟨i, binding⟩
  markerOwner : ∀ key marker, OrdMap.get? s.entries key = some (.opening marker) →
    ∃ (i : Nat) (t : Task), s.tasks[i]? = some t ∧ t.sessionKey = key ∧ t.phase.marker = some marker
  markerUnique : ∀ (i j : Nat) (t u : Task) marker, s.tasks[i]? = some t → s.tasks[j]? = some u →
    t.phase.marker = some marker → u.phase.marker = some marker → i = j
  markerBound : ∀ (i : Nat) (t : Task) marker, s.tasks[i]? = some t → t.phase.marker = some marker →
    marker < s.markers
  closedRun : ∀ run, s.closes run ≠ .idle ∨ run ∈ s.closeReturned → run ∈ s.closedRuns
  awaited : ∀ (i : Nat) (t : Task), s.tasks[i]? = some t → t.phase ≠ .finished →
    s.closes t.key.runId ≠ .idle → i ∈ (s.closes t.key.runId).awaited
  cancelled : ∀ (i : Nat) (t : Task), s.tasks[i]? = some t → t.phase ≠ .finished →
    s.closes t.key.runId ≠ .idle → i ∈ (s.closes t.key.runId).uncancelled ∨ t.cancel = true
  spent : ∀ key entry, s.Swept key.runId → OrdMap.get? s.entries key = some entry →
    s.Spent entry
  returnedTasks : ∀ (i : Nat) (t : Task), s.tasks[i]? = some t → t.key.runId ∈ s.closeReturned →
    t.phase = .finished
  returnedSessions : ∀ managed ∈ s.sessions, managed.runId ∈ s.closeReturned →
    managed.closed = true ∧ managed.closeReturned = true

theorem inv_initial : Inv .initial where
  calls := by simp [NodeRunner.initial]
  owned := by simp [NodeRunner.initial]
  inClose := by simp [NodeRunner.initial]
  taskSession := by simp [NodeRunner.initial]
  entrySession := by simp [NodeRunner.initial]
  activeSession := by simp [NodeRunner.initial]
  closeHeld := by simp [NodeRunner.initial, CloseRun.held]
  closeInClose := by simp [NodeRunner.initial, CloseRun.inClose]
  closeBindings := by simp [NodeRunner.initial, CloseRun.bindings]
  registered := by simp [NodeRunner.initial]
  markerOwner := by simp [NodeRunner.initial]
  markerUnique := by simp [NodeRunner.initial]
  markerBound := by simp [NodeRunner.initial]
  closedRun := by simp [NodeRunner.initial]
  awaited := by simp [NodeRunner.initial]
  cancelled := by simp [NodeRunner.initial]
  spent := by simp [NodeRunner.initial]
  returnedTasks := by simp [NodeRunner.initial]
  returnedSessions := by simp [NodeRunner.initial]

/-! ## Sessions -/

section

variable {α : Type} {l : List α} {a b x : α} {i j : Nat}

theorem getElem?_set_iff (h : l[i]? = some a) :
    (l.set i b)[j]? = some x ↔ (j = i ∧ x = b) ∨ (j ≠ i ∧ l[j]? = some x) := by
  have hlt : i < l.length := (List.getElem?_eq_some_iff.mp h).1
  rw [List.getElem?_set]
  by_cases hij : i = j
  · simp [hij, hij ▸ hlt, eq_comm]
  · simp [hij, Ne.symm hij]

theorem getElem?_concat_iff :
    (l ++ [a])[j]? = some x ↔ l[j]? = some x ∨ (j = l.length ∧ x = a) := by
  rw [List.getElem?_append]
  split
  · next hlt => simp [hlt.ne]
  · next hge =>
    have hnone : l[j]? = none := List.getElem?_eq_none (by omega)
    rw [hnone, List.getElem?_singleton]
    by_cases hj : j = l.length
    · simp [hj, eq_comm]
    · have hpos : j - l.length ≠ 0 := by omega
      simp [hj, hpos]

theorem exists_getElem?_of_length {β : Type} {new : List β} {y : β} (h : new.length ≤ l.length)
    (hy : new[i]? = some y) : ∃ x, l[i]? = some x := by
  have hlt : i < new.length := (List.getElem?_eq_some_iff.mp hy).1
  have hlt' : i < l.length := by omega
  exact ⟨l[i], List.getElem?_eq_getElem hlt'⟩

end

/-- What a step does to the sessions: flags are only set, the inner `close` is called when the
closed flag is set, which happens to `started` alone, and new sessions are `added`. -/
structure Advanced (old new : List ManagedSession) (started : Option Nat)
    (added : Nat → ManagedSession → Prop) : Prop where
  length : old.length ≤ new.length
  later : ∀ (session : Nat) (before after : ManagedSession), old[session]? = some before →
    new[session]? = some after →
      after.runId = before.runId ∧ (before.closed = true → after.closed = true) ∧
        (before.closeReturned = true → after.closeReturned = true) ∧
          (before.closeCalls = before.closed.toNat → after.closeCalls = after.closed.toNat) ∧
            (after.closed = true → before.closed = true ∨ started = some session)
  fresh : ∀ (session : Nat) (after : ManagedSession), old.length ≤ session →
    new[session]? = some after → added session after

theorem getElem?_le_length {α : Type} {l : List α} {i : Nat} {x : α} (hle : l.length ≤ i)
    (h : l[i]? = some x) : False := by
  rw [List.getElem?_eq_none hle] at h
  cases h

section

variable {s : NodeRunner} {session : Nat} {started : Option Nat}
  {added : Nat → ManagedSession → Prop}

theorem Advanced.refl (sessions : List ManagedSession) :
    Advanced sessions sessions started added where
  length := le_rfl
  later session before after hbefore hafter := by
    rw [hbefore] at hafter
    cases hafter
    exact ⟨rfl, id, id, id, .inl⟩
  fresh session after hle hafter := (getElem?_le_length hle hafter).elim

theorem Advanced.markClosed (h : s.isClosed session = false) :
    Advanced s.sessions (s.markClosed session).sessions (some session) added where
  length := (List.length_modify ..).ge
  later x before after hbefore hafter := by
    simp only [NodeRunner.markClosed, List.getElem?_modify, hbefore] at hafter
    by_cases hx : session = x
    · subst hx
      simp only [NodeRunner.isClosed, hbefore] at h
      simp only [if_pos, Option.map_eq_map, Option.map_some, Option.some.injEq] at hafter
      subst hafter
      simp [h]
    · simp only [if_neg hx, Option.map_eq_map, Option.map_some, Option.some.injEq] at hafter
      subst hafter
      exact ⟨rfl, id, id, id, .inl⟩
  fresh x after hle hafter :=
    (getElem?_le_length ((List.length_modify ..).trans_le hle) hafter).elim

theorem Advanced.markReturned (s : NodeRunner) (session : Nat) :
    Advanced s.sessions (s.markReturned session).sessions started added where
  length := (List.length_modify ..).ge
  later x before after hbefore hafter := by
    simp only [NodeRunner.markReturned, List.getElem?_modify, hbefore, Option.map_eq_map,
      Option.map_some, Option.some.injEq] at hafter
    subst hafter
    by_cases hx : session = x
    · simp +contextual [hx]
    · simp +contextual [hx]
  fresh x after hle hafter :=
    (getElem?_le_length ((List.length_modify ..).trans_le hle) hafter).elim

theorem Advanced.concat {opened : ManagedSession} (h : added s.sessions.length opened) :
    Advanced s.sessions (s.sessions ++ [opened]) started added where
  length := by simp
  later x before after hbefore hafter := by
    rcases getElem?_concat_iff.mp hafter with hafter | ⟨rfl, -⟩
    · have hsame : Advanced s.sessions s.sessions started added := Advanced.refl _
      exact hsame.later x before after hbefore hafter
    · exact (getElem?_le_length le_rfl hbefore).elim
  fresh x after hle hafter := by
    rcases getElem?_concat_iff.mp hafter with hafter | ⟨rfl, rfl⟩
    · exact (getElem?_le_length hle hafter).elim
    · exact h

theorem markClosed_closed {managed : ManagedSession}
    (h : (s.markClosed session).sessions[session]? = some managed) : managed.closed = true := by
  simp only [NodeRunner.markClosed, List.getElem?_modify, if_pos, Option.map_eq_map,
    Option.map_eq_some_iff] at h
  obtain ⟨before, -, rfl⟩ := h
  rfl

theorem markReturned_closeReturned {managed : ManagedSession}
    (h : (s.markReturned session).sessions[session]? = some managed) :
    managed.closeReturned = true := by
  simp only [NodeRunner.markReturned, List.getElem?_modify, if_pos, Option.map_eq_map,
    Option.map_eq_some_iff] at h
  obtain ⟨before, -, rfl⟩ := h
  rfl

variable {sessions : List ManagedSession}

theorem NodeRunner.SessionOf.advance {run : RunId} (h : s.SessionOf session run)
    (hadv : Advanced s.sessions sessions started added) :
    { s with sessions := sessions }.SessionOf session run := by
  obtain ⟨managed, hmanaged, hrun⟩ := h
  obtain ⟨after, hafter⟩ := exists_getElem?_of_length hadv.length hmanaged
  exact ⟨after, hafter, (hadv.later _ _ _ hmanaged hafter).1.trans hrun⟩

/-- A session that is open, or whose `close` has not returned, is new or was so before. -/
theorem Advanced.before (hadv : Advanced s.sessions sessions started added)
    {after : ManagedSession} (hafter : sessions[session]? = some after) :
    added session after ∨ ∃ before, s.sessions[session]? = some before ∧
      after.runId = before.runId ∧ (after.closed = false → before.closed = false) ∧
        (after.closeReturned = false → before.closeReturned = false) ∧
          (before.closeCalls = before.closed.toNat → after.closeCalls = after.closed.toNat) ∧
            (after.closed = true → before.closed = true ∨ started = some session) := by
  by_cases hle : s.sessions.length ≤ session
  · exact .inl (hadv.fresh session after hle hafter)
  · have hlt : session < s.sessions.length := by omega
    have hbefore : s.sessions[session]? = some s.sessions[session] :=
      List.getElem?_eq_getElem hlt
    obtain ⟨hrun, hclosed, hreturned, hcalls, hstarted⟩ := hadv.later _ _ _ hbefore hafter
    refine .inr ⟨_, hbefore, hrun, fun h => ?_, fun h => ?_, hcalls, hstarted⟩
    · rw [Bool.eq_false_iff]
      exact fun hb => absurd (hclosed hb) (by simp [h])
    · rw [Bool.eq_false_iff]
      exact fun hb => absurd (hreturned hb) (by simp [h])

end

/-! ## Steps of a task -/

/-- The conditions under which task `i` may go on to `phase` while the sessions become `sessions`:
it lets go of a session only when that is closed or in the pool, of an inner `close` only when that
has returned, and of its marker only when the entry is no longer its own. -/
structure Moves (s : NodeRunner) (i : Nat) (t : Task) (phase : Phase)
    (sessions : List ManagedSession) : Prop where
  session : ∀ x, phase.session = some x → { s with sessions := sessions }.SessionOf x t.key.runId
  held : ∀ x, t.phase.held = some x → phase.held = some x ∨
    (∀ managed, sessions[x]? = some managed → managed.closed = true) ∨
      ∃ key, OrdMap.get? s.entries key = some (.live x)
  inClose : ∀ x, t.phase.inClose = some x → phase.inClose = some x ∨
    ∀ managed, sessions[x]? = some managed → managed.closeReturned = true
  marker : ∀ m, phase.marker = some m → m < s.markers ∧
    ∀ (j : Nat) (u : Task), s.tasks[j]? = some u → u.phase.marker = some m → j = i
  released : ∀ m, t.phase.marker = some m → phase.marker = some m ∨
    OrdMap.get? s.entries t.sessionKey ≠ some (.opening m)
  stopping : ∀ m, t.Stopping m → { t with phase := phase }.Stopping m ∨
    OrdMap.get? s.entries t.sessionKey ≠ some (.opening m)

section

variable {s : NodeRunner} {i : Nat} {t : Task} {phase : Phase} {sessions : List ManagedSession}

theorem Task.Stopping.marker {m : Nat} (h : t.Stopping m) : t.phase.marker = some m := by
  rcases h with h | ⟨-, h⟩
  · rw [h]
    rfl
  · rw [h]
    rfl

/-- The task at the marker of an entry is the one the entry belongs to. -/
theorem Inv.owner_key (h : Inv s) {key : SessionKey} {m : Nat}
    (hentry : OrdMap.get? s.entries key = some (.opening m)) (hi : s.tasks[i]? = some t)
    (hm : t.phase.marker = some m) : t.sessionKey = key := by
  obtain ⟨j, u, hj, hkey, hu⟩ := h.markerOwner key m hentry
  cases h.markerUnique j i u t m hj hi hu hm
  rw [hi] at hj
  cases hj
  exact hkey

theorem Inv.move (h : Inv s) (hi : s.tasks[i]? = some t) (hlive : t.phase ≠ .finished)
    (hadv : Advanced s.sessions sessions phase.inClose fun x managed =>
      managed = ⟨t.key.runId, false, 0, false⟩ ∧ phase.held = some x)
    (hmoves : Moves s i t phase sessions) :
    Inv { s.goto i t phase with sessions := sessions } where
  calls managed hmem := by
    obtain ⟨x, hx⟩ := List.mem_iff_getElem?.mp hmem
    rcases hadv.before hx with ⟨rfl, -⟩ | ⟨before, hbefore, -, -, -, hcalls, -⟩
    · rfl
    · exact hcalls (h.calls before (List.mem_of_getElem? hbefore))
  owned x managed hx hopen := by
    rcases hadv.before hx with ⟨-, hheld⟩ | ⟨before, hbefore, -, hclosed, -⟩
    · exact .inl ⟨i, _, (getElem?_set_iff hi).mpr (.inl ⟨rfl, rfl⟩), hheld⟩
    rcases h.owned x before hbefore (hclosed hopen) with ⟨j, u, hj, hu⟩ | hentry | hclose
    · by_cases hij : j = i
      · subst hij
        rw [hi] at hj
        cases hj
        rcases hmoves.held x hu with hheld | hdone | hentry
        · exact .inl ⟨j, _, (getElem?_set_iff hi).mpr (.inl ⟨rfl, rfl⟩), hheld⟩
        · exact absurd (hdone managed hx) (by simp [hopen])
        · exact .inr (.inl hentry)
      · exact .inl ⟨j, u, (getElem?_set_iff hi).mpr (.inr ⟨hij, hj⟩), hu⟩
    · exact .inr (.inl hentry)
    · exact .inr (.inr hclose)
  inClose x managed hx hclosed hwait := by
    rcases hadv.before hx with ⟨rfl, -⟩ | ⟨before, hbefore, -, -, hreturned, -, hstarted⟩
    · cases hclosed
    rcases hstarted hclosed with hbclosed | hphase
    · rcases h.inClose x before hbefore hbclosed (hreturned hwait) with ⟨j, u, hj, hu⟩ | hclose
      · by_cases hij : j = i
        · subst hij
          rw [hi] at hj
          cases hj
          rcases hmoves.inClose x hu with hphase | hdone
          · exact .inl ⟨j, _, (getElem?_set_iff hi).mpr (.inl ⟨rfl, rfl⟩), hphase⟩
          · exact absurd (hdone managed hx) (by simp [hwait])
        · exact .inl ⟨j, u, (getElem?_set_iff hi).mpr (.inr ⟨hij, hj⟩), hu⟩
      · exact .inr hclose
    · exact .inl ⟨i, _, (getElem?_set_iff hi).mpr (.inl ⟨rfl, rfl⟩), hphase⟩
  taskSession j u x hj hu := by
    rcases (getElem?_set_iff hi).mp hj with ⟨rfl, rfl⟩ | ⟨-, hj⟩
    · exact hmoves.session x hu
    · exact (h.taskSession j u x hj hu).advance hadv
  entrySession key x hmem := (h.entrySession key x hmem).advance hadv
  activeSession key active binding hmem hbinding :=
    (h.activeSession key active binding hmem hbinding).advance hadv
  closeHeld run x hx := (h.closeHeld run x hx).advance hadv
  closeInClose run x hx := (h.closeInClose run x hx).advance hadv
  closeBindings run x hx := (h.closeBindings run x hx).advance hadv
  registered j u hj hu := by
    rcases (getElem?_set_iff hi).mp hj with ⟨rfl, rfl⟩ | ⟨-, hj⟩
    · exact h.registered j t hi hlive
    · exact h.registered j u hj hu
  markerOwner key m hentry := by
    obtain ⟨j, u, hj, hkey, hu⟩ := h.markerOwner key m hentry
    by_cases hij : j = i
    · subst hij
      rw [hi] at hj
      cases hj
      rcases hmoves.released m hu with hphase | hne
      · exact ⟨j, _, (getElem?_set_iff hi).mpr (.inl ⟨rfl, rfl⟩), hkey, hphase⟩
      · exact absurd hentry (hkey ▸ hne)
    · exact ⟨j, u, (getElem?_set_iff hi).mpr (.inr ⟨hij, hj⟩), hkey, hu⟩
  markerUnique j k u v m hj hk hu hv := by
    rcases (getElem?_set_iff hi).mp hj with ⟨rfl, rfl⟩ | ⟨-, hju⟩
    · rcases (getElem?_set_iff hi).mp hk with ⟨rfl, rfl⟩ | ⟨-, hkv⟩
      · rfl
      · exact ((hmoves.marker m hu).2 k v hkv hv).symm
    · rcases (getElem?_set_iff hi).mp hk with ⟨rfl, rfl⟩ | ⟨-, hkv⟩
      · exact (hmoves.marker m hv).2 j u hju hu
      · exact h.markerUnique j k u v m hju hkv hu hv
  markerBound j u m hj hu := by
    rcases (getElem?_set_iff hi).mp hj with ⟨rfl, rfl⟩ | ⟨-, hj⟩
    · exact (hmoves.marker m hu).1
    · exact h.markerBound j u m hj hu
  closedRun := h.closedRun
  awaited j u hj hu := by
    rcases (getElem?_set_iff hi).mp hj with ⟨rfl, rfl⟩ | ⟨-, hj⟩
    · exact h.awaited j t hi hlive
    · exact h.awaited j u hj hu
  cancelled j u hj hu := by
    rcases (getElem?_set_iff hi).mp hj with ⟨rfl, rfl⟩ | ⟨-, hj⟩
    · exact h.cancelled j t hi hlive
    · exact h.cancelled j u hj hu
  spent key entry hswept hentry := by
    rcases h.spent key entry hswept hentry with rfl | ⟨m, rfl, j, u, hj, hu⟩
    · exact .inl rfl
    · refine .inr ⟨m, rfl, ?_⟩
      by_cases hij : j = i
      · subst hij
        rw [hi] at hj
        cases hj
        rcases hmoves.stopping m hu with hphase | hne
        · exact ⟨j, _, (getElem?_set_iff hi).mpr (.inl ⟨rfl, rfl⟩), hphase⟩
        · exact absurd hentry (h.owner_key hentry hi hu.marker ▸ hne)
      · exact ⟨j, u, (getElem?_set_iff hi).mpr (.inr ⟨hij, hj⟩), hu⟩
  returnedTasks j u hj hrun := by
    rcases (getElem?_set_iff hi).mp hj with ⟨rfl, rfl⟩ | ⟨-, hj⟩
    · exact absurd (h.returnedTasks j t hi hrun) hlive
    · exact h.returnedTasks j u hj hrun
  returnedSessions managed hmem hrun := by
    obtain ⟨x, hx⟩ := List.mem_iff_getElem?.mp hmem
    rcases hadv.before hx with ⟨rfl, -⟩ | ⟨before, hbefore, hsame, hclosed, hreturned, -⟩
    · exact absurd (h.returnedTasks i t hi hrun) hlive
    have hdone := h.returnedSessions before (List.mem_of_getElem? hbefore) (hsame ▸ hrun)
    refine ⟨?_, ?_⟩
    · by_contra hne
      simp [hclosed (by simpa using hne)] at hdone
    · by_contra hne
      simp [hreturned (by simpa using hne)] at hdone

theorem Inv.goto (h : Inv s) (hi : s.tasks[i]? = some t) (hlive : t.phase ≠ .finished)
    (hmoves : Moves s i t phase s.sessions) : Inv (s.goto i t phase) :=
  h.move hi hlive (Advanced.refl _) hmoves

/-- The factory returned a session: the task that asked for it holds it. -/
theorem Inv.opened (h : Inv s) (hi : s.tasks[i]? = some t) {marker : Option Nat}
    (hphase : t.phase = .select (.factory marker) true) : Inv (s.opened i t marker) := by
  refine h.move hi (by simp [hphase]) (.concat ⟨rfl, rfl⟩)
    { session := ?_
      held := by simp [hphase, Phase.held, Arm.held]
      inClose := by simp [hphase, Phase.inClose]
      marker := ?_
      released := by simp +contextual [hphase, Phase.marker, Arm.marker]
      stopping := by simp [hphase, Task.Stopping] }
  · intro x hx
    cases hx
    exact ⟨_, getElem?_concat_iff.mpr (.inr ⟨rfl, rfl⟩), rfl⟩
  · intro m hm
    have hold : t.phase.marker = some m := by
      rw [hphase]
      exact hm
    exact ⟨h.markerBound i t m hi hold, fun j u hj hu => h.markerUnique j i u t m hj hi hu hold⟩

end

/-! ## Changes of the pool and of the registry -/

section

variable {s : NodeRunner} {key : SessionKey} {entry : SessionEntry}

/-- An entry is replaced: a session that leaves the pool is closed or held by someone, an opening
marker has its task, and a swept run gets no live or replaceable entry. -/
theorem Inv.insertEntry (h : Inv s)
    (hleft : ∀ x, OrdMap.get? s.entries key = some (.live x) → s.isClosed x = true ∨
      (∃ (i : Nat) (t : Task), s.tasks[i]? = some t ∧ t.phase.held = some x) ∨
        ∃ run, x ∈ (s.closes run).held)
    (hlive : ∀ x, entry = .live x → s.SessionOf x key.runId)
    (howner : ∀ m, entry = .opening m → ∃ (i : Nat) (t : Task), s.tasks[i]? = some t ∧
      t.sessionKey = key ∧ t.phase.marker = some m)
    (hspent : s.Swept key.runId → s.Spent entry) :
    Inv { s with entries := OrdMap.insert key entry s.entries } :=
  { h with
    owned := fun x managed hx hopen => by
      rcases h.owned x managed hx hopen with htask | ⟨key', hentry⟩ | hclose
      · exact .inl htask
      · by_cases hkey : key' = key
        · subst hkey
          rcases hleft x hentry with hclosed | htask | hclose
          · simp [NodeRunner.isClosed, hx, hopen] at hclosed
          · exact .inl htask
          · exact .inr (.inr hclose)
        · exact .inr (.inl ⟨key', (OrdMap.get?_insert_ne hkey _ _).trans hentry⟩)
      · exact .inr (.inr hclose)
    entrySession := fun key' x hmem => by
      rcases OrdMap.mem_insert_imp hmem with heq | hmem
      · cases heq
        exact hlive x rfl
      · exact h.entrySession key' x hmem
    markerOwner := fun key' m hentry => by
      by_cases hkey : key' = key
      · subst hkey
        rw [OrdMap.get?_insert_self] at hentry
        cases hentry
        exact howner m rfl
      · rw [OrdMap.get?_insert_ne hkey] at hentry
        exact h.markerOwner key' m hentry
    spent := fun key' entry' hswept hentry => by
      by_cases hkey : key' = key
      · subst hkey
        rw [OrdMap.get?_insert_self] at hentry
        cases hentry
        exact hspent hswept
      · rw [OrdMap.get?_insert_ne hkey] at hentry
        exact h.spent key' entry' hswept hentry }

theorem Inv.removeEntry (h : Inv s)
    (hleft : ∀ x, OrdMap.get? s.entries key ≠ some (.live x)) :
    Inv { s with entries := OrdMap.remove s.entries key } :=
  { h with
    owned := fun x managed hx hopen => by
      rcases h.owned x managed hx hopen with htask | ⟨key', hentry⟩ | hclose
      · exact .inl htask
      · have hkey : key' ≠ key := by
          rintro rfl
          exact hleft x hentry
        exact .inr (.inl ⟨key', (OrdMap.get?_remove_ne hkey _).trans hentry⟩)
      · exact .inr (.inr hclose)
    entrySession := fun key' x hmem => h.entrySession key' x (List.mem_of_mem_filter hmem)
    markerOwner := fun key' m hentry => by
      by_cases hkey : key' = key
      · subst hkey
        rw [OrdMap.get?_remove_self] at hentry
        cases hentry
      · rw [OrdMap.get?_remove_ne hkey] at hentry
        exact h.markerOwner key' m hentry
    spent := fun key' entry' hswept hentry => by
      by_cases hkey : key' = key
      · subst hkey
        rw [OrdMap.get?_remove_self] at hentry
        cases hentry
      · rw [OrdMap.get?_remove_ne hkey] at hentry
        exact h.spent key' entry' hswept hentry }

/-- `invalidate` takes a session out of the pool that a party is about to close. -/
theorem Inv.replaceLive (h : Inv s) {session : Nat} (hentry : entry = .replaceable ∨ entry = .lost)
    (hheld : (∃ (i : Nat) (t : Task), s.tasks[i]? = some t ∧ t.phase.held = some session) ∨
      ∃ run, session ∈ (s.closes run).held) : Inv (s.replaceLive key session entry) := by
  unfold NodeRunner.replaceLive
  split
  · next hold =>
    refine h.insertEntry ?_ ?_ ?_ ?_
    · intro x hx
      rw [hold] at hx
      cases hx
      exact .inr hheld
    · rcases hentry with rfl | rfl <;> simp
    · rcases hentry with rfl | rfl <;> simp
    · intro hswept
      rcases h.spent key _ hswept hold with hlost | ⟨m, hm, -⟩
      · cases hlost
      · cases hm
  · exact h

theorem Inv.register (h : Inv s) {t : NodeRunner} {key : ActiveKey} {nodeInstance : NodeInstanceId}
    {scope : SessionScope} (hstep : s.register key nodeInstance scope = some t) : Inv t := by
  unfold NodeRunner.register at hstep
  split at hstep
  · cases hstep
  next hopen =>
  split at hstep
  · cases hstep
  next hvacant =>
  cases hstep
  have hidle : s.closes key.runId = .idle := by
    by_contra hne
    exact hopen (h.closedRun _ (.inl hne))
  exact
    { h with
      owned := fun x managed hx hclosed => by
        rcases h.owned x managed hx hclosed with ⟨j, u, hj, hu⟩ | howned
        · exact .inl ⟨j, u, getElem?_concat_iff.mpr (.inl hj), hu⟩
        · exact .inr howned
      inClose := fun x managed hx hclosed hwait => by
        rcases h.inClose x managed hx hclosed hwait with ⟨j, u, hj, hu⟩ | hclose
        · exact .inl ⟨j, u, getElem?_concat_iff.mpr (.inl hj), hu⟩
        · exact .inr hclose
      taskSession := fun j u x hj hu => by
        rcases getElem?_concat_iff.mp hj with hj | ⟨-, rfl⟩
        · exact h.taskSession j u x hj hu
        · cases hu
      activeSession := fun key' active binding hmem hbinding => by
        rcases OrdMap.mem_insert_imp hmem with heq | hmem
        · cases heq
          cases hbinding
        · exact h.activeSession key' active binding hmem hbinding
      registered := fun j u hj hu => by
        rcases getElem?_concat_iff.mp hj with hj | ⟨rfl, rfl⟩
        · obtain ⟨binding, hactive⟩ := h.registered j u hj hu
          have hne : u.key ≠ key := by
            rintro rfl
            rw [hvacant] at hactive
            cases hactive
          exact ⟨binding, (OrdMap.get?_insert_ne hne _ _).trans hactive⟩
        · exact ⟨none, OrdMap.get?_insert_self _ _ _⟩
      markerOwner := fun key' m hentry => by
        obtain ⟨j, u, hj, hkey, hu⟩ := h.markerOwner key' m hentry
        exact ⟨j, u, getElem?_concat_iff.mpr (.inl hj), hkey, hu⟩
      markerUnique := fun j k u v m hj hk hu hv => by
        rcases getElem?_concat_iff.mp hj with hj | ⟨-, rfl⟩
        · rcases getElem?_concat_iff.mp hk with hk | ⟨-, rfl⟩
          · exact h.markerUnique j k u v m hj hk hu hv
          · cases hv
        · cases hu
      markerBound := fun j u m hj hu => by
        rcases getElem?_concat_iff.mp hj with hj | ⟨-, rfl⟩
        · exact h.markerBound j u m hj hu
        · cases hu
      awaited := fun j u hj hu hbusy => by
        rcases getElem?_concat_iff.mp hj with hj | ⟨-, rfl⟩
        · exact h.awaited j u hj hu hbusy
        · exact absurd hidle hbusy
      cancelled := fun j u hj hu hbusy => by
        rcases getElem?_concat_iff.mp hj with hj | ⟨-, rfl⟩
        · exact h.cancelled j u hj hu hbusy
        · exact absurd hidle hbusy
      spent := fun key' entry' hswept hentry => by
        rcases h.spent key' entry' hswept hentry with hlost | ⟨m, hm, j, u, hj, hu⟩
        · exact .inl hlost
        · exact .inr ⟨m, hm, j, u, getElem?_concat_iff.mpr (.inl hj), hu⟩
      returnedTasks := fun j u hj hrun => by
        rcases getElem?_concat_iff.mp hj with hj | ⟨-, rfl⟩
        · exact h.returnedTasks j u hj hrun
        · exact absurd (h.closedRun _ (.inr hrun)) hopen }

/-- A cancelled task is otherwise the same. -/
structure Cancelled (before after : Task) : Prop where
  key : after.key = before.key
  sessionKey : after.sessionKey = before.sessionKey
  phase : after.phase = before.phase
  cancel : before.cancel = true → after.cancel = true

theorem Cancelled.stopping {before after : Task} (h : Cancelled before after) {m : Nat}
    (hstop : before.Stopping m) : after.Stopping m := by
  unfold Task.Stopping at hstop ⊢
  rw [h.phase]
  exact hstop.imp_right fun ⟨hcancel, hphase⟩ => ⟨h.cancel hcancel, hphase⟩

theorem cancelTask_tasks (s : NodeRunner) (i j : Nat) :
    (s.cancelTask i).tasks[j]? =
      s.tasks[j]?.map fun t => if i = j then { t with cancel := true } else t := by
  simp only [NodeRunner.cancelTask, List.getElem?_modify, Option.map_eq_map]

theorem cancelled_ite (t : Task) (p : Prop) [Decidable p] :
    Cancelled t (if p then { t with cancel := true } else t) := by
  split
  · exact ⟨rfl, rfl, rfl, fun _ => rfl⟩
  · exact ⟨rfl, rfl, rfl, id⟩

theorem Inv.cancelTask (h : Inv s) (i : Nat) : Inv (s.cancelTask i) := by
  have hback : ∀ {j : Nat} {u : Task}, (s.cancelTask i).tasks[j]? = some u →
      ∃ v, s.tasks[j]? = some v ∧ Cancelled v u := by
    intro j u hj
    rw [cancelTask_tasks] at hj
    obtain ⟨v, hv, rfl⟩ := Option.map_eq_some_iff.mp hj
    exact ⟨v, hv, cancelled_ite v _⟩
  have hforth : ∀ {j : Nat} {v : Task}, s.tasks[j]? = some v →
      ∃ u, (s.cancelTask i).tasks[j]? = some u ∧ Cancelled v u := by
    intro j v hj
    exact ⟨_, (cancelTask_tasks s i j).trans (congrArg _ hj), cancelled_ite v _⟩
  exact
    { h with
      owned := fun x managed hx hopen => by
        rcases h.owned x managed hx hopen with ⟨j, v, hj, hv⟩ | howned
        · obtain ⟨u, hu, hsame⟩ := hforth hj
          exact .inl ⟨j, u, hu, hsame.phase ▸ hv⟩
        · exact .inr howned
      inClose := fun x managed hx hclosed hwait => by
        rcases h.inClose x managed hx hclosed hwait with ⟨j, v, hj, hv⟩ | hclose
        · obtain ⟨u, hu, hsame⟩ := hforth hj
          exact .inl ⟨j, u, hu, hsame.phase ▸ hv⟩
        · exact .inr hclose
      taskSession := fun j u x hj hu => by
        obtain ⟨v, hv, hsame⟩ := hback hj
        rw [hsame.key]
        exact h.taskSession j v x hv (hsame.phase ▸ hu)
      registered := fun j u hj hu => by
        obtain ⟨v, hv, hsame⟩ := hback hj
        rw [hsame.key]
        exact h.registered j v hv (hsame.phase ▸ hu)
      markerOwner := fun key m hentry => by
        obtain ⟨j, v, hj, hkey, hv⟩ := h.markerOwner key m hentry
        obtain ⟨u, hu, hsame⟩ := hforth hj
        exact ⟨j, u, hu, hsame.sessionKey.trans hkey, hsame.phase ▸ hv⟩
      markerUnique := fun j k u v m hj hk hu hv => by
        obtain ⟨u', hu', hsame⟩ := hback hj
        obtain ⟨v', hv', hsame'⟩ := hback hk
        exact h.markerUnique j k u' v' m hu' hv' (hsame.phase ▸ hu) (hsame'.phase ▸ hv)
      markerBound := fun j u m hj hu => by
        obtain ⟨v, hv, hsame⟩ := hback hj
        exact h.markerBound j v m hv (hsame.phase ▸ hu)
      awaited := fun j u hj hu => by
        obtain ⟨v, hv, hsame⟩ := hback hj
        rw [hsame.key]
        exact h.awaited j v hv (hsame.phase ▸ hu)
      cancelled := fun j u hj hu hbusy => by
        obtain ⟨v, hv, hsame⟩ := hback hj
        rw [hsame.key] at hbusy ⊢
        exact (h.cancelled j v hv (hsame.phase ▸ hu) hbusy).imp_right hsame.cancel
      spent := fun key entry hswept hentry => by
        rcases h.spent key entry hswept hentry with hlost | ⟨m, hm, j, v, hj, hv⟩
        · exact .inl hlost
        · obtain ⟨u, hu, hsame⟩ := hforth hj
          exact .inr ⟨m, hm, j, u, hu, hsame.stopping hv⟩
      returnedTasks := fun j u hj hrun => by
        obtain ⟨v, hv, hsame⟩ := hback hj
        rw [hsame.phase]
        exact h.returnedTasks j v hv (hsame.key ▸ hrun) }

/-- `bind_session` stores the session of the task's lease. -/
theorem Inv.bindActive (h : Inv s) {key : ActiveKey} {active : ActiveInvocation}
    {lease : SessionBinding} (hactive : OrdMap.get? s.active key = some active)
    (hlease : s.SessionOf lease.session key.runId) :
    Inv { s with active := OrdMap.insert key { active with binding := some lease } s.active } :=
  { h with
    activeSession := fun key' active' binding hmem hbinding => by
      rcases OrdMap.mem_insert_imp hmem with heq | hmem
      · cases heq
        cases hbinding
        exact hlease
      · exact h.activeSession key' active' binding hmem hbinding
    registered := fun j u hj hu => by
      obtain ⟨binding, hfound⟩ := h.registered j u hj hu
      by_cases hkey : u.key = key
      · subst hkey
        rw [hactive] at hfound
        cases hfound
        exact ⟨_, OrdMap.get?_insert_self _ _ _⟩
      · exact ⟨binding, (OrdMap.get?_insert_ne hkey _ _).trans hfound⟩ }

/-- `ActivityToken::finish` removes the key of a task that has finished. -/
theorem Inv.removeActive (h : Inv s) {key : ActiveKey} {i : Nat} {t : Task}
    (hi : s.tasks[i]? = some t) (hfinished : t.phase = .finished)
    {binding : Option SessionBinding} (hactive : OrdMap.get? s.active key = some ⟨i, binding⟩) :
    Inv { s with active := OrdMap.remove s.active key } :=
  { h with
    activeSession := fun key' active' binding hmem hbinding =>
      h.activeSession key' active' binding (List.mem_of_mem_filter hmem) hbinding
    registered := fun j u hj hu => by
      obtain ⟨binding, hfound⟩ := h.registered j u hj hu
      have hkey : u.key ≠ key := by
        rintro rfl
        rw [hactive] at hfound
        cases hfound
        rw [hi] at hj
        cases hj
        exact hu hfinished
      exact ⟨binding, (OrdMap.get?_remove_ne hkey _).trans hfound⟩ }

theorem Inv.addMarker (h : Inv s) : Inv { s with markers := s.markers + 1 } :=
  { h with
    markerBound := fun i t m hi hm => Nat.lt_succ_of_lt (h.markerBound i t m hi hm) }

theorem Inv.sendReady (h : Inv s) (marker : Nat) : Inv { s with ready := marker :: s.ready } :=
  { h with }

end

/-! ## The steps of a task keep the invariant -/

section

variable {s : NodeRunner} {i : Nat} {t : Task} {phase : Phase}

/-- The usual move: the marker stays, and no session is let go that is not closed. -/
theorem Inv.goto_keep (h : Inv s) (hi : s.tasks[i]? = some t) (hlive : t.phase ≠ .finished)
    (hsession : ∀ x, phase.session = some x → s.SessionOf x t.key.runId)
    (hheld : ∀ x, t.phase.held = some x → phase.held = some x ∨ s.isClosed x = true)
    (hclose : t.phase.inClose = none) (hmarker : phase.marker = t.phase.marker)
    (hstop : ∀ m, t.Stopping m → { t with phase := phase }.Stopping m) :
    Inv (s.goto i t phase) := by
  refine h.goto hi hlive
    { session := hsession
      held := ?_
      inClose := by simp [hclose]
      marker := ?_
      released := by simp +contextual [hmarker]
      stopping := fun m hm => .inl (hstop m hm) }
  · intro x hx
    rcases hheld x hx with hphase | hclosed
    · exact .inl hphase
    · refine .inr (.inl fun managed hmanaged => ?_)
      simpa [NodeRunner.isClosed, hmanaged] using hclosed
  · intro m hm
    rw [hmarker] at hm
    exact ⟨h.markerBound i t m hi hm, fun j u hj hu => h.markerUnique j i u t m hj hi hu hm⟩

/-- A move between two phases with the same responsibilities. -/
theorem Inv.goto_same (h : Inv s) (hi : s.tasks[i]? = some t) (hlive : t.phase ≠ .finished)
    (hsession : phase.session = t.phase.session) (hheld : phase.held = t.phase.held)
    (hclose : t.phase.inClose = none) (hmarker : phase.marker = t.phase.marker)
    (hstop : ∀ m, ¬ t.Stopping m) : Inv (s.goto i t phase) :=
  h.goto_keep hi hlive (fun x hx => h.taskSession i t x hi (hsession ▸ hx))
    (fun _ hx => .inl (hheld.trans hx)) hclose hmarker fun m hm => absurd hm (hstop m)

theorem Inv.checkout (h : Inv s) (hi : s.tasks[i]? = some t) (hphase : t.phase = .checkout) :
    Inv (s.checkout i t) := by
  have hlive : t.phase ≠ .finished := by simp [hphase]
  have hstop : ∀ m, ¬ t.Stopping m := by simp [Task.Stopping, hphase]
  have hplain : ∀ phase : Phase, (∀ x, phase.session = some x → s.SessionOf x t.key.runId) →
      phase.marker = none → Inv (s.goto i t phase) := fun phase hsession hmarker =>
    h.goto_keep hi hlive hsession (by simp [hphase, Phase.held]) (by simp [hphase, Phase.inClose])
      (hmarker.trans (by simp [hphase, Phase.marker])) fun m hm => absurd hm (hstop m)
  -- A free key is claimed with a fresh marker.
  have hclaim : (∀ x, OrdMap.get? s.entries t.sessionKey ≠ some (.live x)) →
      (∀ m, OrdMap.get? s.entries t.sessionKey ≠ some (.opening m)) →
      Inv { s.goto i t (.select (.factory (some s.markers)) false) with
        markers := s.markers + 1
        entries := OrdMap.insert t.sessionKey (.opening s.markers) s.entries } := by
    intro hnotLive hnotOpening
    have hmoved : Inv ({ s with markers := s.markers + 1 }.goto i t
        (.select (.factory (some s.markers)) false)) := by
      refine h.addMarker.goto hi hlive
        { session := by simp [Phase.session, Arm.session]
          held := by simp [hphase, Phase.held]
          inClose := by simp [hphase, Phase.inClose]
          marker := ?_
          released := by simp [hphase, Phase.marker]
          stopping := fun m hm => absurd hm (hstop m) }
      intro m hm
      cases hm
      refine ⟨Nat.lt_succ_self _, fun j u hj hu => ?_⟩
      exact absurd (h.markerBound j u _ hj hu) (Nat.lt_irrefl _)
    have hself : (s.tasks.set i { t with phase := .select (.factory (some s.markers)) false })[i]? =
        some { t with phase := .select (.factory (some s.markers)) false } :=
      (getElem?_set_iff hi).mpr (.inl ⟨rfl, rfl⟩)
    refine hmoved.insertEntry (fun x hx => absurd hx (hnotLive x)) (by simp) ?_ ?_
    · intro m hm
      cases hm
      exact ⟨i, _, hself, rfl, rfl⟩
    · intro hswept
      refine .inr ⟨_, rfl, i, _, hself, .inr ⟨?_, rfl⟩⟩
      -- The run is being closed and this task is active, so it has been cancelled.
      rcases hswept with hswept | hreturned
      · change (s.closes t.key.runId).swept = true at hswept
        have hbusy : s.closes t.key.runId ≠ .idle := fun hidle => by
          rw [hidle] at hswept
          cases hswept
        rcases h.cancelled i t hi hlive hbusy with hmem | hcancel
        · revert hswept hmem
          cases s.closes t.key.runId <;> simp [CloseRun.swept, CloseRun.uncancelled]
        · exact hcancel
      · exact absurd (h.returnedTasks i t hi hreturned) hlive
  unfold NodeRunner.checkout
  split
  · exact hplain _ (by simp [Phase.session, Arm.session]) rfl
  · split
    · exact hplain _ (by simp [Phase.session]) rfl
    · next session hentry =>
      refine hplain _ (fun x hx => ?_) rfl
      cases hx
      exact h.entrySession _ _ (OrdMap.mem_of_get? hentry)
    · exact hplain _ (by simp [Phase.session, Arm.session]) rfl
    · next hentry => exact hclaim (by simp [hentry]) (by simp [hentry])
    · next hentry => exact hclaim (by simp [hentry]) (by simp [hentry])

theorem Inv.finishOpen (h : Inv s) (hi : s.tasks[i]? = some t) {marker : Nat}
    {opened : Except NodeRunnerError Nat} (hphase : t.phase = .finishOpen marker opened) :
    Inv (s.finishOpen i t marker opened) := by
  have hlive : t.phase ≠ .finished := by simp [hphase]
  have hmarker : t.phase.marker = some marker := by
    rw [hphase]
    rfl
  -- Once the entry is not the marker any more, the task may let go of it.
  have hrelease : ∀ (u : NodeRunner) (next : Phase), Inv u → u.tasks = s.tasks →
      OrdMap.get? u.entries t.sessionKey ≠ some (.opening marker) → next.marker = none →
      (∀ x, next.session = some x → u.SessionOf x t.key.runId) →
      (∀ x, opened = .ok x → next.held = some x ∨
        ∃ key, OrdMap.get? u.entries key = some (.live x)) → Inv (u.goto i t next) := by
    intro u next hu htasks hentry hnone hsession hheld
    refine hu.goto (htasks ▸ hi) hlive
      { session := hsession
        held := ?_
        inClose := by simp [hphase, Phase.inClose]
        marker := by simp [hnone]
        released := ?_
        stopping := ?_ }
    · intro x hx
      rw [hphase] at hx
      cases opened with
      | ok y =>
        cases hx
        exact (hheld x rfl).imp_right .inr
      | error e => cases hx
    · intro m hm
      rw [hmarker] at hm
      cases hm
      exact .inr hentry
    · intro m hm
      have hsame := hm.marker
      rw [hmarker] at hsame
      cases hsame
      exact .inr hentry
  have hready := h.sendReady marker
  have hsession : ∀ x, opened = .ok x → s.SessionOf x t.key.runId := by
    rintro x rfl
    exact h.taskSession i t x hi (by simp [hphase, Phase.session])
  unfold NodeRunner.finishOpen
  by_cases hentry : OrdMap.get? s.entries t.sessionKey = some (.opening marker)
  · have hnotLive : ∀ x, OrdMap.get? s.entries t.sessionKey ≠ some (.live x) := by
      simp [hentry]
    dsimp only
    rw [if_pos hentry]
    cases opened with
    | ok session =>
      have hstored := @Inv.insertEntry _ t.sessionKey (.live session) hready
        (fun x hx => absurd hx (hnotLive x))
        (fun x hx => by cases hx; exact hsession _ rfl)
        (by simp) fun hswept => by
          rcases h.spent t.sessionKey _ hswept hentry with hlost | ⟨m, hm, j, u, hj, hu⟩
          · cases hlost
          · cases hm
            cases h.markerUnique i j t u marker hi hj hmarker hu.marker
            rw [hi] at hj
            cases hj
            simp [Task.Stopping, hphase] at hu
      refine hrelease _ _ hstored rfl ?_ rfl ?_ ?_
      · simp [OrdMap.get?_insert_self]
      · intro x hx
        cases hx
        exact hsession _ rfl
      · intro x hx
        cases hx
        exact .inr ⟨t.sessionKey, OrdMap.get?_insert_self _ _ _⟩
    | error error =>
      dsimp only
      split
      · have hstored := @Inv.insertEntry _ t.sessionKey .lost hready
          (fun x hx => absurd hx (hnotLive x)) (by simp) (by simp) fun _ => .inl rfl
        refine hrelease _ _ hstored rfl ?_ rfl (by simp [Phase.session]) (by simp)
        simp [OrdMap.get?_insert_self]
      · have hstored := @Inv.removeEntry _ t.sessionKey hready hnotLive
        refine hrelease _ _ hstored rfl ?_ rfl (by simp [Phase.session]) (by simp)
        simp [OrdMap.get?_remove_self]
  · dsimp only
    rw [if_neg hentry]
    cases opened with
    | ok session =>
      refine hrelease _ _ hready rfl hentry rfl ?_ ?_
      · intro x hx
        cases hx
        exact hsession _ rfl
      · intro x hx
        cases hx
        exact .inl rfl
    | error error => exact hrelease _ _ hready rfl hentry rfl (by simp [Phase.session]) (by simp)

/-- A biased `select!` that finds the task cancelled. -/
theorem Inv.armCancelled (h : Inv s) (hi : s.tasks[i]? = some t) {arm : Arm}
    (hphase : t.phase = .select arm false) : Inv (s.goto i t arm.cancelled) := by
  have hlive : t.phase ≠ .finished := by simp [hphase]
  have hsession := fun x => h.taskSession i t x hi
  have hclose : t.phase.inClose = none := by simp [hphase, Phase.inClose]
  rw [hphase] at hsession
  cases arm with
  | ready marker =>
    refine h.goto_keep hi hlive ?_ ?_ hclose ?_ ?_ <;>
      simp [hphase, Arm.cancelled, Phase.session, Phase.held, Arm.held, Phase.marker, Arm.marker,
        Task.Stopping]
  | factory marker =>
    cases marker with
    | none =>
      refine h.goto_keep hi hlive ?_ ?_ hclose ?_ ?_ <;>
        simp [hphase, Arm.cancelled, Phase.afterOpen, Phase.session, Phase.held, Arm.held,
          Phase.marker, Arm.marker, Task.Stopping]
    | some marker =>
      refine h.goto_keep hi hlive ?_ ?_ hclose ?_ ?_ <;>
        simp [hphase, Arm.cancelled, Phase.afterOpen, Phase.session, Phase.held, Arm.held,
          Phase.marker, Arm.marker, Task.Stopping]
  | openedLive marker session asked =>
    refine h.goto_keep hi hlive hsession ?_ hclose ?_ ?_
    · simp [hphase, Arm.cancelled, Phase.held, Arm.held]
    · simp [hphase, Arm.cancelled, Phase.marker, Arm.marker, Function.comp_def]
    · simp [hphase, Task.Stopping]
  | pooledLive session asked =>
    refine h.goto_keep hi hlive ?_ ?_ hclose ?_ ?_ <;>
      simp [hphase, Arm.cancelled, Phase.session, Phase.held, Arm.held, Phase.marker, Arm.marker,
        Task.Stopping]

/-- `is_live` has answered for a session that was just opened. -/
theorem Inv.openedLive (h : Inv s) (hi : s.tasks[i]? = some t) {marker : Option Nat} {session : Nat}
    {asked : Bool} (hphase : t.phase = .select (.openedLive marker session asked) true)
    (live : Bool) : Inv (s.openedLive i t marker session live) := by
  have hlive : t.phase ≠ .finished := by simp [hphase]
  have hclose : t.phase.inClose = none := by simp [hphase, Phase.inClose]
  have hsession : s.SessionOf session t.key.runId :=
    h.taskSession i t session hi (by simp [hphase, Phase.session, Arm.session])
  unfold NodeRunner.openedLive
  split
  · cases marker with
    | none =>
      refine h.goto_keep hi hlive ?_ ?_ hclose ?_ ?_
      · intro x hx
        cases hx
        exact hsession
      · simp [hphase, Phase.afterOpen, Phase.held, Arm.held, SessionBinding.held]
      · simp [hphase, Phase.afterOpen, Phase.marker, Arm.marker]
      · simp [hphase, Task.Stopping]
    | some marker =>
      refine h.goto_keep hi hlive ?_ ?_ hclose ?_ ?_
      · intro x hx
        cases hx
        exact hsession
      · simp [hphase, Phase.afterOpen, Phase.held, Arm.held]
      · simp [hphase, Phase.afterOpen, Phase.marker, Arm.marker]
      · simp [hphase, Task.Stopping]
  · refine h.goto_keep hi hlive ?_ ?_ hclose ?_ ?_
    · intro x hx
      cases hx
      exact hsession
    · simp [hphase, Phase.held, Arm.held]
    · simp [hphase, Phase.marker, Arm.marker, Function.comp_def]
    · simp [hphase, Task.Stopping]

/-- `is_live` has answered for a session of the pool. -/
theorem Inv.pooledLive (h : Inv s) (hi : s.tasks[i]? = some t) {session : Nat} {asked : Bool}
    (hphase : t.phase = .select (.pooledLive session asked) true) (live : Bool) :
    Inv (s.pooledLive i t session live) := by
  have hlive : t.phase ≠ .finished := by simp [hphase]
  have hclose : t.phase.inClose = none := by simp [hphase, Phase.inClose]
  have hsession : s.SessionOf session t.key.runId :=
    h.taskSession i t session hi (by simp [hphase, Phase.session, Arm.session])
  have hplain : ∀ phase : Phase, phase.session = some session → phase.marker = none →
      Inv (s.goto i t phase) := by
    intro phase hspeaks hmarker
    refine h.goto_keep hi hlive ?_ ?_ hclose (hmarker.trans ?_) ?_
    · intro x hx
      rw [hspeaks] at hx
      cases hx
      exact hsession
    · simp [hphase, Phase.held, Arm.held]
    · simp [hphase, Phase.marker, Arm.marker]
    · simp [hphase, Task.Stopping]
  unfold NodeRunner.pooledLive
  split
  · exact hplain _ rfl rfl
  · exact hplain _ rfl rfl

/-- `ManagedSession::close` of a task, up to the inner `close`. -/
theorem Inv.closeSession (h : Inv s) (hi : s.tasks[i]? = some t) {session : Nat}
    {resume : Option (Nat × NodeRunnerError)} (hphase : t.phase = .close session resume) :
    Inv (if s.isClosed session then s.goto i t (.afterClose resume)
      else (s.goto i t (.closing session resume)).markClosed session) := by
  have hlive : t.phase ≠ .finished := by simp [hphase]
  have hclose : t.phase.inClose = none := by simp [hphase, Phase.inClose]
  have hsession : s.SessionOf session t.key.runId :=
    h.taskSession i t session hi (by simp [hphase, Phase.session])
  split
  · next hclosed =>
    refine h.goto_keep hi hlive ?_ ?_ hclose ?_ ?_
    · cases resume <;> simp [Phase.afterClose, Phase.session]
    · intro x hx
      rw [hphase] at hx
      cases hx
      exact .inr hclosed
    · cases resume <;> simp [hphase, Phase.afterClose, Phase.marker]
    · simp [hphase, Task.Stopping]
  · next hopen =>
    have hadv : Advanced s.sessions (s.markClosed session).sessions (some session) fun x managed =>
        managed = ⟨t.key.runId, false, 0, false⟩ ∧ (Phase.closing session resume).held = some x :=
      Advanced.markClosed (eq_false_of_ne_true hopen)
    refine h.move hi hlive hadv
      { session := ?_
        held := ?_
        inClose := by simp [hclose]
        marker := ?_
        released := by simp +contextual [hphase, Phase.marker]
        stopping := by simp [hphase, Task.Stopping] }
    · intro x hx
      cases hx
      exact hsession.advance hadv
    · intro x hx
      rw [hphase] at hx
      cases hx
      exact .inr (.inl fun managed => markClosed_closed)
    · intro m hm
      have hold : t.phase.marker = some m := by
        rw [hphase]
        exact hm
      exact ⟨h.markerBound i t m hi hold, fun j u hj hu => h.markerUnique j i u t m hj hi hu hold⟩

/-- The inner `close` a task waits for has returned. -/
theorem Inv.closeReturn (h : Inv s) (hi : s.tasks[i]? = some t) {session : Nat}
    {resume : Option (Nat × NodeRunnerError)} (hphase : t.phase = .closing session resume) :
    Inv ((s.goto i t (.afterClose resume)).markReturned session) := by
  have hmarker : (Phase.afterClose resume).marker = t.phase.marker := by
    rw [hphase]
    cases resume <;> rfl
  refine h.move hi (by simp [hphase]) (Advanced.markReturned s session)
    { session := by cases resume <;> simp [Phase.afterClose, Phase.session]
      held := by simp [hphase, Phase.held]
      inClose := ?_
      marker := ?_
      released := by simp +contextual [hmarker]
      stopping := by simp [hphase, Task.Stopping] }
  · intro x hx
    rw [hphase] at hx
    cases hx
    exact .inr fun managed => markReturned_closeReturned
  · intro m hm
    rw [hmarker] at hm
    exact ⟨h.markerBound i t m hi hm, fun j u hj hu => h.markerUnique j i u t m hj hi hu hm⟩

/-- A move of a task between phases that speak of its lease or of nothing. -/
theorem Inv.gotoLease (h : Inv s) (hi : s.tasks[i]? = some t) (lease : SessionBinding)
    (hspeaks : t.phase.session = some lease.session) (hholds : t.phase.held = lease.held)
    (hlive : t.phase ≠ .finished) (hclose : t.phase.inClose = none) (hold : t.phase.marker = none)
    (hstop : ∀ m, ¬ t.Stopping m)
    (hphase : phase.session = some lease.session ∨ phase.session = none)
    (hheld : ∀ x, lease.held = some x → phase.held = some x) (hmarker : phase.marker = none) :
    Inv (s.goto i t phase) := by
  refine h.goto_keep hi hlive ?_ ?_ hclose (hmarker.trans hold.symm) fun m hm => absurd hm (hstop m)
  · intro x hx
    rcases hphase with hphase | hphase
    · rw [hphase] at hx
      cases hx
      exact h.taskSession i t _ hi hspeaks
    · rw [hphase] at hx
      cases hx
  · intro x hx
    rw [hholds] at hx
    exact .inl (hheld x hx)

theorem Inv.bindSession (h : Inv s) (hi : s.tasks[i]? = some t) {lease : SessionBinding}
    (hphase : t.phase = .bind lease) : Inv (s.bindSession i t lease) := by
  have hplain : ∀ phase : Phase, phase.session = some lease.session → phase.held = lease.held →
      phase.marker = none → Inv (s.goto i t phase) := fun phase hspeaks hholds hmarker =>
    h.gotoLease hi lease (by rw [hphase]; rfl) (by rw [hphase]; rfl) (by simp [hphase])
      (by simp [hphase, Phase.inClose]) (by simp [hphase, Phase.marker])
      (by simp [hphase, Task.Stopping]) (.inl hspeaks) (fun x hx => hholds.trans hx) hmarker
  unfold NodeRunner.bindSession
  split
  · exact hplain _ rfl rfl rfl
  · split
    · exact hplain _ rfl rfl rfl
    · next active hactive =>
      exact (hplain (.drive lease) rfl rfl rfl).bindActive hactive
        (h.taskSession i t _ hi (by simp [hphase, Phase.session]))

theorem Inv.finishLease (h : Inv s) (hi : s.tasks[i]? = some t) {lease : SessionBinding}
    {clean : Bool} (hphase : t.phase = .finishLease lease clean) :
    Inv (s.finishLease i t lease clean) := by
  have hplain : ∀ phase : Phase, phase.session = some lease.session ∨ phase.session = none →
      (∀ x, lease.held = some x → phase.held = some x) → phase.marker = none →
      Inv (s.goto i t phase) := fun phase hspeaks hholds hmarker =>
    h.gotoLease hi lease (by rw [hphase]; rfl) (by rw [hphase]; rfl) (by simp [hphase])
      (by simp [hphase, Phase.inClose]) (by simp [hphase, Phase.marker])
      (by simp [hphase, Task.Stopping]) hspeaks hholds hmarker
  unfold NodeRunner.finishLease
  split
  · next hkind => exact hplain _ (.inl rfl) (by simp [SessionBinding.held, hkind, Phase.held]) rfl
  · next key hkind =>
    split
    · exact hplain _ (.inr rfl) (by simp [SessionBinding.held, hkind]) rfl
    · exact hplain _ (.inl rfl) (by simp [SessionBinding.held, hkind]) rfl

theorem Inv.finish (h : Inv s) (hi : s.tasks[i]? = some t) (hphase : t.phase = .returned) :
    Inv (s.finish i t) := by
  have hlive : t.phase ≠ .finished := by simp [hphase]
  have hmoved : Inv (s.goto i t .finished) := by
    refine h.goto_same hi hlive ?_ ?_ ?_ ?_ ?_ <;>
      simp [hphase, Phase.session, Phase.held, Phase.inClose, Phase.marker, Task.Stopping]
  obtain ⟨binding, hactive⟩ := h.registered i t hi hlive
  exact hmoved.removeActive ((getElem?_set_iff hi).mpr (.inl ⟨rfl, rfl⟩)) rfl hactive

theorem Inv.stepTask (h : Inv s) (hi : s.tasks[i]? = some t) {answer : Answer} {u : NodeRunner}
    (hstep : s.stepTask i t answer = some u) : Inv u := by
  unfold NodeRunner.stepTask at hstep
  split at hstep
  · next hphase =>
    cases hstep
    exact h.checkout hi hphase
  · next arm hphase =>
    cases hstep
    split
    · exact h.armCancelled hi hphase
    · next hcancel =>
      refine h.goto_same hi ?_ ?_ ?_ ?_ ?_ ?_ <;>
        simp [hphase, Phase.session, Phase.held, Phase.inClose, Phase.marker, Task.Stopping,
          hcancel]
  · next arm hphase =>
    cases hstep
    refine h.goto_same hi ?_ ?_ ?_ ?_ ?_ ?_ <;>
      simp [hphase, Phase.session, Phase.held, Phase.inClose, Phase.marker, Task.Stopping]
  · next marker hphase =>
    split at hstep
    · cases hstep
      refine h.goto_keep hi (by simp [hphase]) ?_ ?_ ?_ ?_ ?_ <;>
        simp [hphase, Phase.session, Phase.held, Arm.held, Phase.inClose, Phase.marker, Arm.marker,
          Task.Stopping]
    · cases hstep
  · next marker hphase =>
    cases hstep
    exact h.opened hi hphase
  · next marker error hphase =>
    cases hstep
    cases marker <;>
      refine h.goto_keep hi (by simp [hphase]) ?_ ?_ ?_ ?_ ?_ <;>
        simp [hphase, Phase.afterOpen, Phase.session, Phase.held, Arm.held, Phase.inClose,
          Phase.marker, Arm.marker, Task.Stopping]
  · next marker session hphase =>
    cases hstep
    split
    · exact h.openedLive hi hphase false
    · refine h.goto_same hi ?_ ?_ ?_ ?_ ?_ ?_ <;>
        simp [hphase, Phase.session, Arm.session, Phase.held, Arm.held, Phase.inClose, Phase.marker,
          Arm.marker, Task.Stopping]
  · next marker session live hphase =>
    cases hstep
    exact h.openedLive hi hphase live
  · next session hphase =>
    cases hstep
    split
    · exact h.pooledLive hi hphase false
    · refine h.goto_same hi ?_ ?_ ?_ ?_ ?_ ?_ <;>
        simp [hphase, Phase.session, Arm.session, Phase.held, Arm.held, Phase.inClose, Phase.marker,
          Arm.marker, Task.Stopping]
  · next session live hphase =>
    cases hstep
    exact h.pooledLive hi hphase live
  · next marker opened hphase =>
    cases hstep
    exact h.finishOpen hi hphase
  · next key session lost hphase =>
    cases hstep
    have hmoved : Inv (s.goto i t (.close session none)) := by
      refine h.goto_same hi ?_ ?_ ?_ ?_ ?_ ?_ <;>
        simp [hphase, Phase.session, Phase.held, Phase.inClose, Phase.marker, Task.Stopping]
    refine hmoved.replaceLive ?_ (.inl ⟨i, _, (getElem?_set_iff hi).mpr (.inl ⟨rfl, rfl⟩), rfl⟩)
    cases lost <;> simp
  · next session resume hphase =>
    cases hstep
    exact h.closeSession hi hphase
  · next session resume hphase =>
    cases hstep
    exact h.closeReturn hi hphase
  · next lease hphase =>
    cases hstep
    exact h.bindSession hi hphase
  · next lease clean hphase =>
    cases hstep
    refine h.gotoLease hi lease ?_ ?_ ?_ ?_ ?_ ?_ (.inl rfl) ?_ rfl <;>
      simp [hphase, Phase.session, Phase.held, Phase.inClose, Phase.marker, Task.Stopping]
  · next lease clean hphase =>
    cases hstep
    exact h.finishLease hi hphase
  · next hphase =>
    cases hstep
    exact h.finish hi hphase
  · cases hstep

end

end Zeroshot.Runner
