import Mathlib.Data.List.Infix
import Mathlib.Data.List.Nodup
import Zeroshot.Lib.Machine

set_option autoImplicit false

/-!
# Workspace leases

`ControllerLease::acquire_workspace`: shared locks on the lease files of every ancestor of the
workspace, from the root down, then an exclusive lock on the file of the workspace itself. A refused
attempt drops the locks taken so far; dropping a lease unlocks its own file first and then its
ancestors.

Contenders take these steps one at a time, in any order between them. A file is locked by any number
of contenders in shared mode or by one in exclusive mode, which is what the file system promises.
-/

namespace Zeroshot.Lease

open Machine

/-! ## Lock plans -/

/-- A canonical path, as its components from the root. -/
abbrev WorkspacePath := List String

/-- `Path::ancestors`: the path itself first, the root last. -/
def ancestors (workspace : WorkspacePath) : List WorkspacePath :=
  ((List.range (workspace.length + 1)).map workspace.take).reverse

inductive LockMode
  | shared
  | exclusive
  deriving DecidableEq, Repr

section

variable {File : Type} (digest : WorkspacePath → File)

/-- The locks of a lease, in the order they are taken. -/
def lockPlan (workspace : WorkspacePath) : List (File × LockMode) :=
  (((ancestors workspace).drop 1).reverse.map fun parent => (digest parent, .shared)) ++
    [(digest workspace, .exclusive)]

theorem lockPlan_eq (workspace : WorkspacePath) :
    lockPlan digest workspace =
      ((List.range workspace.length).map fun k => (digest (workspace.take k), .shared)) ++
        [(digest workspace, .exclusive)] := by
  rw [lockPlan, ancestors, List.range_succ, List.map_append, List.reverse_append]
  simp

theorem mem_lockPlan {workspace : WorkspacePath} {file : File} {mode : LockMode} :
    (file, mode) ∈ lockPlan digest workspace ↔
      (mode = .shared ∧ ∃ k < workspace.length, digest (workspace.take k) = file) ∨
        (mode = .exclusive ∧ digest workspace = file) := by
  rw [lockPlan_eq, List.mem_append, List.mem_map, List.mem_singleton, Prod.mk.injEq]
  constructor
  · rintro (⟨k, hk, heq⟩ | ⟨rfl, rfl⟩)
    · cases heq
      exact .inl ⟨rfl, k, List.mem_range.mp hk, rfl⟩
    · exact .inr ⟨rfl, rfl⟩
  · rintro (⟨rfl, k, hk, rfl⟩ | ⟨rfl, rfl⟩)
    · exact .inl ⟨k, List.mem_range.mpr hk, rfl⟩
    · exact .inr ⟨rfl, rfl⟩

theorem take_injective {workspace : WorkspacePath} {k k' : Nat} (hk : k ≤ workspace.length)
    (hk' : k' ≤ workspace.length) (h : workspace.take k = workspace.take k') : k = k' := by
  have hlength := congrArg List.length h
  rwa [List.length_take, List.length_take, Nat.min_eq_left hk, Nat.min_eq_left hk'] at hlength

theorem lockPlan_nodup (hdigest : Function.Injective digest) (workspace : WorkspacePath) :
    ((lockPlan digest workspace).map Prod.fst).Nodup := by
  rw [lockPlan_eq, List.map_append, List.map_map, List.nodup_append]
  refine ⟨?_, List.nodup_singleton _, ?_⟩
  · refine (List.nodup_map_iff_inj_on List.nodup_range).mpr fun k hk k' hk' heq => ?_
    exact take_injective (List.mem_range.mp hk).le (List.mem_range.mp hk').le (hdigest heq)
  · intro file hfile file' hfile' heq
    obtain ⟨k, hk, rfl⟩ := List.mem_map.mp hfile
    rw [List.map_singleton, List.mem_singleton] at hfile'
    have htake : workspace.take k = workspace.take workspace.length := by
      rw [List.take_length]
      exact hdigest (heq.trans hfile')
    have hlt := List.mem_range.mp hk
    exact absurd (take_injective hlt.le le_rfl htake) hlt.ne

end

/-! ## Contenders -/

section

variable (File : Type)

/-- Where one acquisition stands, with the locks it still owns. -/
inductive Contender
  | idle
  | acquiring (workspace : WorkspacePath) (taken rest : List (File × LockMode))
  | holding (workspace : WorkspacePath) (taken : List (File × LockMode))
  | releasing (workspace : WorkspacePath) (remaining : List (File × LockMode))
  deriving DecidableEq, Repr

/-- The contenders, and the lock table of the lease files. -/
structure Leases (ι : Type) where
  contenders : ι → Contender File
  locks : List (ι × File × LockMode)

/-- One step of a contender. -/
inductive LeaseEvent (ι : Type)
  | start (i : ι) (workspace : WorkspacePath)
  | attempt (i : ι)
  | fault (i : ι)
  | drop (i : ι)
  | unlock (i : ι)
  | exit (i : ι)
  deriving DecidableEq, Repr

end

section

variable {ι File : Type} [DecidableEq ι] [DecidableEq File] (digest : WorkspacePath → File)

/-- Whether the file system grants a lock: an exclusive one on a file nobody has locked, a shared
one on a file nobody has locked exclusively. -/
def grants (locks : List (ι × File × LockMode)) (file : File) : LockMode → Bool
  | .shared => locks.all fun lock => lock.2.1 != file || lock.2.2 == .shared
  | .exclusive => locks.all fun lock => lock.2.1 != file

/-- Drop what is left to drop. -/
def toRelease (workspace : WorkspacePath) : List (File × LockMode) → Contender File
  | [] => .idle
  | remaining => .releasing workspace remaining

/-- After a granted lock: the next one, or the lease. -/
def toAcquire (workspace : WorkspacePath) (taken : List (File × LockMode)) :
    List (File × LockMode) → Contender File
  | [] => .holding workspace taken
  | rest => .acquiring workspace taken rest

def Leases.move (s : Leases File ι) (i : ι) (contender : Contender File) : Leases File ι :=
  { s with contenders := Function.update s.contenders i contender }

/-- The steps of `acquire_workspace`, of dropping what it returned, and of a process that ends. -/
def leaseStep : LeaseEvent ι → Leases File ι → Option (Leases File ι)
  | .start i workspace, s =>
    match s.contenders i with
    | .idle => some (s.move i (.acquiring workspace [] (lockPlan digest workspace)))
    | _ => none
  | .attempt i, s =>
    match s.contenders i with
    | .acquiring workspace taken (lock :: rest) =>
      if grants s.locks lock.1 lock.2 then
        some { s.move i (toAcquire workspace (taken ++ [lock]) rest) with
          locks := (i, lock) :: s.locks }
      else some (s.move i (toRelease workspace taken))
    | _ => none
  | .fault i, s =>
    match s.contenders i with
    | .acquiring workspace taken _ => some (s.move i (toRelease workspace taken))
    | _ => none
  | .drop i, s =>
    match s.contenders i with
    | .holding workspace taken =>
      some (s.move i (toRelease workspace (taken.getLast?.toList ++ taken.dropLast)))
    | _ => none
  | .unlock i, s =>
    match s.contenders i with
    | .releasing workspace (lock :: remaining) =>
      some { s.move i (toRelease workspace remaining) with
        locks := s.locks.filter fun held => held != (i, lock) }
    | _ => none
  | .exit i, s =>
    some { s.move i .idle with locks := s.locks.filter fun held => held.1 != i }

/-- Nobody holds or waits for anything. -/
def Leases.initial : Leases File ι := ⟨fun _ => .idle, []⟩

end

/-! ## The invariant -/

section

variable {ι File : Type}

/-- The locks a contender owns. -/
def Contender.owned : Contender File → List (File × LockMode)
  | .idle => []
  | .acquiring _ taken _ => taken
  | .holding _ taken => taken
  | .releasing _ remaining => remaining

def Contender.workspace? : Contender File → Option WorkspacePath
  | .idle => none
  | .acquiring workspace _ _ => some workspace
  | .holding workspace _ => some workspace
  | .releasing workspace _ => some workspace

/-- The contender follows its lock plan. -/
def Contender.OnPlan (digest : WorkspacePath → File) : Contender File → Prop
  | .idle => True
  | .acquiring workspace taken rest => taken ++ rest = lockPlan digest workspace
  | .holding workspace taken => taken = lockPlan digest workspace
  | .releasing workspace remaining =>
    remaining ≠ [] ∧ remaining.Nodup ∧ remaining ⊆ lockPlan digest workspace

/-- Every contender follows its plan, the table holds the locks the contenders own and nothing
else, and only shared locks meet on a file. -/
structure Inv (digest : WorkspacePath → File) (s : Leases File ι) : Prop where
  onPlan : ∀ i, (s.contenders i).OnPlan digest
  owned : ∀ i lock, (i, lock) ∈ s.locks ↔ lock ∈ (s.contenders i).owned
  compatible : ∀ i j file mode mode', (i, file, mode) ∈ s.locks → (j, file, mode') ∈ s.locks →
    i ≠ j → mode = .shared ∧ mode' = .shared

@[simp] theorem owned_toRelease (workspace : WorkspacePath) (locks : List (File × LockMode)) :
    (toRelease workspace locks).owned = locks := by
  cases locks <;> rfl

@[simp] theorem owned_toAcquire (workspace : WorkspacePath) (taken rest : List (File × LockMode)) :
    (toAcquire workspace taken rest).owned = taken := by
  cases rest <;> rfl

theorem toRelease_onPlan {digest : WorkspacePath → File} {workspace : WorkspacePath}
    {locks : List (File × LockMode)} (hnodup : locks.Nodup)
    (hsub : locks ⊆ lockPlan digest workspace) : (toRelease workspace locks).OnPlan digest := by
  cases locks with
  | nil => trivial
  | cons lock locks => exact ⟨List.cons_ne_nil _ _, hnodup, hsub⟩

theorem toAcquire_onPlan {digest : WorkspacePath → File} {workspace : WorkspacePath}
    {taken rest : List (File × LockMode)} (h : taken ++ rest = lockPlan digest workspace) :
    (toAcquire workspace taken rest).OnPlan digest := by
  cases rest with
  | nil =>
    rw [List.append_nil] at h
    exact h
  | cons lock rest => exact h

theorem Contender.OnPlan.mem_plan {digest : WorkspacePath → File} {contender : Contender File}
    (h : contender.OnPlan digest) {lock : File × LockMode} (hlock : lock ∈ contender.owned) :
    ∃ workspace, contender.workspace? = some workspace ∧ lock ∈ lockPlan digest workspace := by
  cases contender with
  | idle => cases hlock
  | acquiring workspace taken rest => exact ⟨workspace, rfl, h ▸ List.mem_append_left rest hlock⟩
  | holding workspace taken => exact ⟨workspace, rfl, h ▸ hlock⟩
  | releasing workspace remaining => exact ⟨workspace, rfl, h.2.2 hlock⟩

variable [DecidableEq ι] {digest : WorkspacePath → File} {s : Leases File ι}

/-- A contender that moves on, with the table following it. -/
theorem Inv.move (hs : Inv digest s) {i : ι} {contender : Contender File}
    {locks : List (ι × File × LockMode)} (hplan : contender.OnPlan digest)
    (hown : ∀ lock, (i, lock) ∈ locks ↔ lock ∈ contender.owned)
    (hothers : ∀ j lock, j ≠ i → ((j, lock) ∈ locks ↔ (j, lock) ∈ s.locks))
    (hmeet : ∀ j file mode mode', (i, file, mode) ∈ locks → (j, file, mode') ∈ s.locks → j ≠ i →
      mode = .shared ∧ mode' = .shared) :
    Inv digest { s.move i contender with locks } where
  onPlan j := by
    by_cases hj : j = i
    · subst hj
      simpa [Leases.move] using hplan
    · simpa [Leases.move, hj] using hs.onPlan j
  owned j lock := by
    by_cases hj : j = i
    · subst hj
      simpa [Leases.move] using hown lock
    · simpa [Leases.move, hj] using (hothers j lock hj).trans (hs.owned j lock)
  compatible j k file mode mode' hmode hmode' hjk := by
    by_cases hj : j = i
    · subst hj
      have hk : k ≠ j := fun h => hjk h.symm
      exact hmeet k file mode mode' hmode ((hothers k _ hk).mp hmode') hk
    · by_cases hk : k = i
      · subst hk
        have hboth := hmeet j file mode' mode hmode' ((hothers j _ hj).mp hmode) hj
        exact ⟨hboth.2, hboth.1⟩
      · exact hs.compatible j k file mode mode' ((hothers j _ hj).mp hmode)
          ((hothers k _ hk).mp hmode') hjk

/-- A contender that moves on without locking or unlocking. -/
theorem Inv.keep (hs : Inv digest s) {i : ι} {contender : Contender File}
    (hplan : contender.OnPlan digest)
    (hown : ∀ lock, lock ∈ (s.contenders i).owned ↔ lock ∈ contender.owned) :
    Inv digest (s.move i contender) :=
  hs.move hplan (fun lock => (hs.owned i lock).trans (hown lock)) (fun _ _ _ => Iff.rfl)
    fun j file mode mode' hi hj hne =>
      hs.compatible i j file mode mode' hi hj fun h => hne h.symm

variable [DecidableEq File]

omit [DecidableEq ι] in
theorem grants_shared {locks : List (ι × File × LockMode)} {file : File} :
    grants locks file .shared = true ↔
      ∀ j mode, (j, file, mode) ∈ locks → mode = .shared := by
  simp only [grants, List.all_eq_true, Bool.or_eq_true, bne_iff_ne, beq_iff_eq]
  constructor
  · intro h j mode hmem
    exact (h _ hmem).resolve_left fun hne => hne rfl
  · rintro h ⟨j, file', mode⟩ hmem
    by_cases hfile : file' = file
    · subst hfile
      exact .inr (h j mode hmem)
    · exact .inl hfile

omit [DecidableEq ι] in
theorem grants_exclusive {locks : List (ι × File × LockMode)} {file : File} :
    grants locks file .exclusive = true ↔ ∀ j mode, (j, file, mode) ∉ locks := by
  simp only [grants, List.all_eq_true, bne_iff_ne]
  constructor
  · intro h j mode hmem
    exact h _ hmem rfl
  · rintro h ⟨j, file', mode⟩ hmem rfl
    exact h j mode hmem

omit [DecidableEq ι] in
theorem grants_compatible {locks : List (ι × File × LockMode)} {file : File} {mode : LockMode}
    (h : grants locks file mode = true) {j : ι} {mode' : LockMode}
    (hmem : (j, file, mode') ∈ locks) : mode = .shared ∧ mode' = .shared := by
  cases mode with
  | shared => exact ⟨rfl, grants_shared.mp h j mode' hmem⟩
  | exclusive => exact absurd hmem (grants_exclusive.mp h j mode')

variable (hdigest : Function.Injective digest)
include hdigest

omit [DecidableEq ι] [DecidableEq File] in
theorem taken_nodup {workspace : WorkspacePath} {taken rest : List (File × LockMode)}
    (h : taken ++ rest = lockPlan digest workspace) : (taken ++ rest).Nodup := by
  rw [h]
  exact (lockPlan_nodup digest hdigest workspace).of_map

omit hdigest in
theorem inv_attempt {i : ι} {workspace : WorkspacePath} {taken rest : List (File × LockMode)}
    {lock : File × LockMode} (hi : s.contenders i = .acquiring workspace taken (lock :: rest))
    (hgrants : grants s.locks lock.1 lock.2 = true) (hs : Inv digest s) :
    Inv digest { s.move i (toAcquire workspace (taken ++ [lock]) rest) with
      locks := (i, lock) :: s.locks } := by
  have hplan := hs.onPlan i
  rw [hi] at hplan
  refine hs.move (toAcquire_onPlan ?_) (fun held => ?_) (fun j held hj => ?_) ?_
  · rw [List.append_assoc]
    exact hplan
  · rw [List.mem_cons, owned_toAcquire, List.mem_append, List.mem_singleton, hs.owned i held, hi,
      Prod.mk.injEq, Contender.owned]
    tauto
  · rw [List.mem_cons, Prod.mk.injEq]
    exact ⟨fun h => h.resolve_left fun heq => hj heq.1, .inr⟩
  · intro j file mode mode' hmode hmode' hj
    rcases List.mem_cons.mp hmode with heq | hmode
    · cases heq
      exact grants_compatible hgrants hmode'
    · exact hs.compatible i j file mode mode' hmode hmode' fun h => hj h.symm

omit [DecidableEq File] in
theorem inv_release {i : ι} {workspace : WorkspacePath} {taken rest : List (File × LockMode)}
    (hi : s.contenders i = .acquiring workspace taken rest) (hs : Inv digest s) :
    Inv digest (s.move i (toRelease workspace taken)) := by
  have hplan := hs.onPlan i
  rw [hi] at hplan
  have hnodup := taken_nodup hdigest hplan
  refine hs.keep (toRelease_onPlan hnodup.of_append_left ?_) fun lock => ?_
  · exact hplan ▸ List.subset_append_left taken rest
  · rw [hi, owned_toRelease, Contender.owned]

omit [DecidableEq File] in
theorem inv_drop {i : ι} {workspace : WorkspacePath} {taken : List (File × LockMode)}
    (hi : s.contenders i = .holding workspace taken) (hs : Inv digest s) :
    Inv digest (s.move i (toRelease workspace (taken.getLast?.toList ++ taken.dropLast))) := by
  have hplan : taken = lockPlan digest workspace := by
    have h := hs.onPlan i
    rwa [hi] at h
  have hperm : (taken.getLast?.toList ++ taken.dropLast).Perm taken := by
    rcases List.eq_nil_or_concat taken with rfl | ⟨front, last, rfl⟩
    · exact List.Perm.refl _
    · simp only [List.concat_eq_append, List.getLast?_append, List.getLast?_singleton,
        List.dropLast_concat]
      exact List.perm_append_comm
  have hnodup : taken.Nodup := hplan ▸ (lockPlan_nodup digest hdigest workspace).of_map
  refine hs.keep (toRelease_onPlan (hperm.nodup_iff.mpr hnodup) ?_) fun lock => ?_
  · exact fun lock hlock => hplan ▸ hperm.subset hlock
  · rw [hi, owned_toRelease, Contender.owned, hperm.mem_iff]

omit hdigest in
theorem inv_unlock {i : ι} {workspace : WorkspacePath} {remaining : List (File × LockMode)}
    {lock : File × LockMode} (hi : s.contenders i = .releasing workspace (lock :: remaining))
    (hs : Inv digest s) :
    Inv digest { s.move i (toRelease workspace remaining) with
      locks := s.locks.filter fun held => held != (i, lock) } := by
  have hplan := hs.onPlan i
  rw [hi] at hplan
  obtain ⟨-, hnodup, hsub⟩ := hplan
  have hnodup' := List.nodup_cons.mp hnodup
  refine hs.move (toRelease_onPlan hnodup'.2 fun held hheld => hsub (List.mem_cons_of_mem _ hheld))
    (fun held => ?_) (fun j held hj => ?_) ?_
  · rw [List.mem_filter, hs.owned i held, hi, owned_toRelease, Contender.owned, List.mem_cons,
      bne_iff_ne]
    constructor
    · rintro ⟨hmem, hne⟩
      exact hmem.resolve_left fun heq => hne (by rw [heq])
    · intro hmem
      exact ⟨.inr hmem, fun heq => hnodup'.1 ((Prod.mk.inj heq).2 ▸ hmem)⟩
  · rw [List.mem_filter, bne_iff_ne, ne_eq, Prod.mk.injEq]
    exact ⟨fun h => h.1, fun h => ⟨h, fun heq => hj heq.1⟩⟩
  · intro j file mode mode' hmode hmode' hj
    exact hs.compatible i j file mode mode' (List.mem_of_mem_filter hmode) hmode' fun h => hj h.symm

omit hdigest [DecidableEq File] in
theorem inv_exit (i : ι) (hs : Inv digest s) :
    Inv digest { s.move i .idle with locks := s.locks.filter fun held => held.1 != i } := by
  refine hs.move trivial (fun held => ?_) (fun j held hj => ?_) ?_
  · simp [Contender.owned]
  · simp [hj]
  · intro j file mode mode' hmode
    simp at hmode

/-- **Every step keeps the invariant.** -/
theorem inv_step {event : LeaseEvent ι} {t : Leases File ι}
    (h : leaseStep digest event s = some t) (hs : Inv digest s) : Inv digest t := by
  cases event with
  | start i workspace =>
    cases hi : s.contenders i <;> simp only [leaseStep, hi] at h <;> cases h
    refine hs.keep ?_ fun lock => ?_
    · exact List.nil_append _
    · rw [hi]
      rfl
  | attempt i =>
    rcases hi : s.contenders i with _ | ⟨workspace, taken, _ | ⟨lock, rest⟩⟩ | _ | _ <;>
      simp only [leaseStep, hi] at h <;> try cases h
    split at h
    · cases h
      exact inv_attempt hi ‹_› hs
    · cases h
      exact inv_release hdigest hi hs
  | fault i =>
    cases hi : s.contenders i <;> simp only [leaseStep, hi] at h <;> cases h
    exact inv_release hdigest hi hs
  | drop i =>
    cases hi : s.contenders i <;> simp only [leaseStep, hi] at h <;> cases h
    exact inv_drop hdigest hi hs
  | unlock i =>
    rcases hi : s.contenders i with _ | _ | _ | ⟨workspace, _ | ⟨lock, remaining⟩⟩ <;>
      simp only [leaseStep, hi] at h <;> cases h
    exact inv_unlock hi hs
  | exit i =>
    cases h
    exact inv_exit i hs

theorem inv_run {events : List (LeaseEvent ι)}
    (h : run (leaseStep digest) events .initial = some s) :
    Inv digest s := by
  refine run_invariant (fun event s t hstep hs => inv_step hdigest hstep hs) h ?_
  refine ⟨fun _ => trivial, fun i lock => ?_, fun i j file mode mode' hmem => ?_⟩
  · simp [Leases.initial, Contender.owned]
  · cases hmem

omit hdigest [DecidableEq ι] [DecidableEq File] in
theorem locks_meet {workspace workspace' : WorkspacePath} (h : workspace <+: workspace') :
    ∃ mode, (digest workspace, LockMode.exclusive) ∈ lockPlan digest workspace ∧
      (digest workspace, mode) ∈ lockPlan digest workspace' := by
  obtain ⟨rest, rfl⟩ := h
  cases rest with
  | nil =>
    refine ⟨.exclusive, (mem_lockPlan digest).mpr (.inr ⟨rfl, rfl⟩), ?_⟩
    rw [List.append_nil]
    exact (mem_lockPlan digest).mpr (.inr ⟨rfl, rfl⟩)
  | cons component rest =>
    refine ⟨.shared, (mem_lockPlan digest).mpr (.inr ⟨rfl, rfl⟩), ?_⟩
    refine (mem_lockPlan digest).mpr (.inl ⟨rfl, workspace.length, ?_, ?_⟩)
    · rw [List.length_append, List.length_cons]
      omega
    · rw [List.take_left]

omit hdigest [DecidableEq ι] [DecidableEq File] in
theorem not_held_above (hs : Inv digest s) {i j : ι} (hij : i ≠ j)
    {workspace workspace' : WorkspacePath} {taken taken' : List (File × LockMode)}
    (hi : s.contenders i = .holding workspace taken)
    (hj : s.contenders j = .holding workspace' taken') : ¬ workspace <+: workspace' := by
  intro habove
  have hplan := hs.onPlan i
  have hplan' := hs.onPlan j
  rw [hi] at hplan
  rw [hj] at hplan'
  obtain ⟨mode, hmem, hmem'⟩ := @locks_meet _ digest _ _ habove
  have hown : (i, digest workspace, LockMode.exclusive) ∈ s.locks := by
    rw [hs.owned, hi]
    exact hplan ▸ hmem
  have hown' : (j, digest workspace, mode) ∈ s.locks := by
    rw [hs.owned, hj]
    exact hplan' ▸ hmem'
  have hshared := (hs.compatible i j _ _ _ hown hown' hij).1
  cases hshared

omit hdigest [DecidableEq ι] in
theorem exists_conflict {locks : List (ι × File × LockMode)} {file : File} {mode : LockMode}
    (h : grants locks file mode = false) :
    ∃ j mode', (j, file, mode') ∈ locks ∧ ¬ (mode = .shared ∧ mode' = .shared) := by
  by_contra hnone
  have hall : ∀ j mode', (j, file, mode') ∈ locks → mode = .shared ∧ mode' = .shared :=
    fun j mode' hmem => by_contra fun hnot => hnone ⟨j, mode', hmem, hnot⟩
  rw [← Bool.not_eq_true] at h
  cases mode with
  | shared => exact h (grants_shared.mpr fun j mode' hmem => (hall j mode' hmem).2)
  | exclusive =>
    refine h (grants_exclusive.mpr fun j mode' hmem => ?_)
    have hshared := (hall j mode' hmem).1
    cases hshared

omit [DecidableEq ι] [DecidableEq File] in
/-- Plans that conflict on a file are for paths one above the other. -/
theorem related_of_conflict {workspace workspace' : WorkspacePath} {file : File}
    {mode mode' : LockMode} (hmem : (file, mode) ∈ lockPlan digest workspace)
    (hmem' : (file, mode') ∈ lockPlan digest workspace')
    (hconflict : ¬ (mode = .shared ∧ mode' = .shared)) :
    workspace <+: workspace' ∨ workspace' <+: workspace := by
  rcases (mem_lockPlan digest).mp hmem with ⟨rfl, k, -, hk⟩ | ⟨rfl, hfile⟩ <;>
    rcases (mem_lockPlan digest).mp hmem' with ⟨rfl, k', -, hk'⟩ | ⟨rfl, hfile'⟩
  · exact absurd ⟨rfl, rfl⟩ hconflict
  · exact .inr (hdigest (hfile'.trans hk.symm) ▸ List.take_prefix k workspace)
  · exact .inl (hdigest (hfile.trans hk'.symm) ▸ List.take_prefix k' workspace')
  · exact .inl (hdigest (hfile.trans hfile'.symm) ▸ List.prefix_refl _)

omit [DecidableEq ι] in
/-- A refused lock conflicts with one that a contender for a path above or below owns. -/
theorem refused_related (hs : Inv digest s) {i : ι} {workspace : WorkspacePath}
    {taken rest : List (File × LockMode)} {lock : File × LockMode}
    (hi : s.contenders i = .acquiring workspace taken (lock :: rest))
    (hrefused : grants s.locks lock.1 lock.2 = false) :
    ∃ j workspace' mode', j ≠ i ∧ (s.contenders j).workspace? = some workspace' ∧
      (j, lock.1, mode') ∈ s.locks ∧ ¬ (lock.2 = .shared ∧ mode' = .shared) ∧
      (workspace <+: workspace' ∨ workspace' <+: workspace) := by
  obtain ⟨j, mode', hheld, hconflict⟩ := exists_conflict hrefused
  have hplan := hs.onPlan i
  rw [hi] at hplan
  have hmem : lock ∈ lockPlan digest workspace :=
    hplan ▸ List.mem_append_right taken List.mem_cons_self
  have howned := (hs.owned j _).mp hheld
  obtain ⟨workspace', hworkspace', hmem'⟩ := (hs.onPlan j).mem_plan howned
  refine ⟨j, workspace', mode', ?_, hworkspace', hheld, hconflict,
    related_of_conflict hdigest hmem hmem' hconflict⟩
  -- A contender never meets itself: its plan names every file once.
  rintro rfl
  rw [hi] at howned
  have hfiles : ((taken ++ lock :: rest).map Prod.fst).Nodup :=
    hplan ▸ lockPlan_nodup digest hdigest workspace
  rw [List.map_append, List.nodup_append] at hfiles
  exact hfiles.2.2 lock.1 (List.mem_map.mpr ⟨_, howned, rfl⟩) lock.1 List.mem_cons_self rfl

omit hdigest in
/-- Dropping locks takes one step per lock, whatever the others do. -/
theorem unlock_all {i : ι} {workspace : WorkspacePath} {remaining : List (File × LockMode)}
    (hi : s.contenders i = toRelease workspace remaining) :
    ∃ t, run (leaseStep digest) (List.replicate remaining.length (.unlock i)) s = some t ∧
      t.contenders i = .idle ∧ ∀ j, j ≠ i → t.contenders j = s.contenders j := by
  induction remaining generalizing s with
  | nil => exact ⟨s, rfl, hi, fun _ _ => rfl⟩
  | cons lock remaining ih =>
    have hstep : leaseStep digest (.unlock i) s =
        some { s.move i (toRelease workspace remaining) with
          locks := s.locks.filter fun held => held != (i, lock) } := by
      simp only [leaseStep, hi, toRelease]
    obtain ⟨t, hrun, hidle, hothers⟩ := @ih { s.move i (toRelease workspace remaining) with
      locks := s.locks.filter fun held => held != (i, lock) } (by simp [Leases.move])
    refine ⟨t, ?_, hidle, fun j hj => (hothers j hj).trans ?_⟩
    · exact run_cons.mpr ⟨_, hstep, hrun⟩
    · simp [Leases.move, hj]

/-- **Workspace leases exclude overlapping workspaces.** In every state that any interleaving
reaches: two held leases are for unrelated paths; an idle contender owns no lock, and a contender
whose attempt is refused, or fails, becomes idle by dropping its locks; a refused attempt meets a
conflicting lock of a contender for a related path. -/
theorem leases_exclude {events : List (LeaseEvent ι)}
    (h : run (leaseStep digest) events .initial = some s) :
    (∀ i j workspace workspace' taken taken', i ≠ j →
      s.contenders i = .holding workspace taken → s.contenders j = .holding workspace' taken' →
        ¬ workspace <+: workspace' ∧ ¬ workspace' <+: workspace) ∧
    (∀ i, s.contenders i = .idle → ∀ lock, (i, lock) ∉ s.locks) ∧
    (∀ i workspace taken lock rest t, s.contenders i = .acquiring workspace taken (lock :: rest) →
      (leaseStep digest (.attempt i) s = some t ∧ grants s.locks lock.1 lock.2 = false ∨
        leaseStep digest (.fault i) s = some t) →
      ∃ u, run (leaseStep digest) (List.replicate taken.length (.unlock i)) t = some u ∧
        u.contenders i = .idle ∧ (∀ lock, (i, lock) ∉ u.locks) ∧
        ∀ j, j ≠ i → u.contenders j = s.contenders j) ∧
    ∀ i workspace taken lock rest, s.contenders i = .acquiring workspace taken (lock :: rest) →
      grants s.locks lock.1 lock.2 = false →
      ∃ j workspace' mode', j ≠ i ∧ (s.contenders j).workspace? = some workspace' ∧
        (j, lock.1, mode') ∈ s.locks ∧ ¬ (lock.2 = .shared ∧ mode' = .shared) ∧
        (workspace <+: workspace' ∨ workspace' <+: workspace) := by
  have hs := inv_run hdigest h
  have hidle : ∀ {u : Leases File ι}, Inv digest u → ∀ i, u.contenders i = .idle →
      ∀ lock, (i, lock) ∉ u.locks := by
    intro u hu i hi lock hmem
    rw [hu.owned, hi] at hmem
    cases hmem
  refine ⟨?_, hidle hs, ?_, fun i workspace taken lock rest => refused_related hdigest hs⟩
  · intro i j workspace workspace' taken taken' hij hi hj
    exact ⟨not_held_above hs hij hi hj, not_held_above hs hij.symm hj hi⟩
  · intro i workspace taken lock rest t hi hfailed
    have hreleased : t = s.move i (toRelease workspace taken) := by
      rcases hfailed with ⟨hstep, hrefused⟩ | hstep <;> simp only [leaseStep, hi] at hstep
      · rw [if_neg (by rw [hrefused]; decide)] at hstep
        exact (Option.some.inj hstep).symm
      · exact (Option.some.inj hstep).symm
    subst hreleased
    have ht := inv_release hdigest hi hs
    obtain ⟨u, hrun, hu, hothers⟩ := @unlock_all ι File _ digest
      (s.move i (toRelease workspace taken)) _ i workspace taken (by simp [Leases.move])
    have hinv := run_invariant (fun event s t hstep hs => inv_step hdigest hstep hs) hrun ht
    refine ⟨u, hrun, hu, hidle hinv i hu, fun j hj => (hothers j hj).trans ?_⟩
    simp [Leases.move, hj]

end

namespace Sample

/-- One contender leases a directory; another asks for a directory inside it and is refused. -/
def nestedEvents : List (LeaseEvent Bool) :=
  [.start true ["w"], .attempt true, .attempt true, .start false ["w", "x"], .attempt false]

end Sample

/-- The lease of the outer directory is held, and the inner one is refused until it is dropped. -/
theorem nested_refused :
    ∃ s, run (leaseStep id) Sample.nestedEvents .initial = some s ∧
      s.contenders true = .holding ["w"] (lockPlan id ["w"]) ∧
      grants s.locks ["w"] .shared = false ∧
      ∃ j workspace' mode', j ≠ false ∧ (s.contenders j).workspace? = some workspace' ∧
        (j, ["w"], mode') ∈ s.locks ∧ ¬ (LockMode.shared = .shared ∧ mode' = .shared) ∧
        (["w", "x"] <+: workspace' ∨ workspace' <+: ["w", "x"]) := by
  have hrun : (run (leaseStep id) Sample.nestedEvents .initial).map (fun s =>
      (s.contenders true, s.contenders false, grants s.locks ["w"] .shared)) =
        some (.holding ["w"] (lockPlan id ["w"]), .acquiring ["w", "x"] [([], .shared)]
          [(["w"], .shared), (["w", "x"], .exclusive)], false) := by decide
  obtain ⟨s, hs, heq⟩ := Option.map_eq_some_iff.mp hrun
  obtain ⟨htrue, hfalse, hrefused⟩ : s.contenders true = _ ∧ s.contenders false = _ ∧
      grants s.locks ["w"] .shared = false := by simpa using heq
  obtain ⟨-, -, -, hrelated⟩ := leases_exclude Function.injective_id hs
  exact ⟨s, hs, htrue, hrefused, hrelated false ["w", "x"] _ _ _ hfalse hrefused⟩

end Zeroshot.Lease
