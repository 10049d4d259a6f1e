import Mathlib.Data.List.Forall2

set_option autoImplicit false

/-!
# Computations that log and may fail

`Logged ω ε α` either returns a value or fails with an `ε`, and in both cases has logged a list of
`ω`. The log of a failed computation is what was logged before the failure.

`Returns x a log` says that `x` succeeds with `a` after logging exactly `log`. Each combinator has
one lemma that splits such a fact into the facts about its parts, so a proof about a program in
this monad never unfolds `bind`.
-/

namespace Zeroshot

theorem eq_ok_of_toOption {ε α : Type} {x : Except ε α} {a : α} (h : x.toOption = some a) :
    x = .ok a := by
  cases x with
  | error => cases h
  | ok found =>
    cases h
    rfl

theorem except_bind_eq_ok {ε α β : Type} {x : Except ε α} {f : α → Except ε β} {b : β} :
    (x >>= f) = .ok b ↔ ∃ a, x = .ok a ∧ f a = .ok b := by
  cases x <;> simp [bind, Except.bind]

theorem except_bind_eq_error {ε α β : Type} {x : Except ε α} {f : α → Except ε β} {e : ε} :
    (x >>= f) = .error e ↔ x = .error e ∨ ∃ a, x = .ok a ∧ f a = .error e := by
  cases x <;> simp [bind, Except.bind]

/-- The results of `f` on every element, or the first failure. -/
def collectOk {ε α β : Type} (f : α → Except ε β) : List α → Except ε (List β)
  | [] => .ok []
  | a :: as => do
    let b ← f a
    let bs ← collectOk f as
    .ok (b :: bs)

theorem collectOk_eq_ok {ε α β : Type} {f : α → Except ε β} {as : List α} {bs : List β} :
    collectOk f as = .ok bs ↔ List.Forall₂ (fun a b => f a = .ok b) as bs := by
  induction as generalizing bs with
  | nil =>
    rw [List.forall₂_nil_left_iff, collectOk, Except.ok.injEq]
    exact eq_comm
  | cons a as ih =>
    simp only [collectOk, except_bind_eq_ok, ih]
    constructor
    · rintro ⟨b, hb, bs', hbs, h⟩
      cases h
      exact .cons hb hbs
    · rintro (_ | ⟨hb, hbs⟩)
      exact ⟨_, hb, _, hbs, rfl⟩

/-- Related values or the same failure. -/
inductive Outcomes {ε α β : Type} (R : α → β → Prop) : Except ε α → Except ε β → Prop
  | ok {a : α} {b : β} (h : R a b) : Outcomes R (.ok a) (.ok b)
  | error (e : ε) : Outcomes R (.error e) (.error e)

section

variable {ε α β γ δ : Type} {R : α → β → Prop} {S : γ → δ → Prop}

theorem Outcomes.bind {x : Except ε α} {y : Except ε β} (h : Outcomes R x y)
    {f : α → Except ε γ} {g : β → Except ε δ} (hfg : ∀ a b, R a b → Outcomes S (f a) (g b)) :
    Outcomes S (x >>= f) (y >>= g) := by
  cases h with
  | ok h => exact hfg _ _ h
  | error e => exact .error e

theorem Outcomes.eq {x y : Except ε α} (h : Outcomes Eq x y) : x = y := by
  cases h with
  | ok h => rw [h]
  | error e => rfl

/-- The same first step. -/
theorem Outcomes.bind_same (x : Except ε α) {f : α → Except ε γ} {g : α → Except ε δ}
    (hfg : ∀ a, Outcomes S (f a) (g a)) : Outcomes S (x >>= f) (x >>= g) := by
  cases x with
  | ok a => exact hfg a
  | error e => exact .error e

end

/-- A log and a result. -/
structure Logged (ω ε α : Type) where
  log : List ω
  result : Except ε α

namespace Logged

variable {ω ε α β : Type}

protected def bind : Logged ω ε α → (α → Logged ω ε β) → Logged ω ε β
  | ⟨log, .error e⟩, _ => ⟨log, .error e⟩
  | ⟨log, .ok a⟩, f =>
    match f a with
    | ⟨log', result⟩ => ⟨log ++ log', result⟩

instance : Monad (Logged ω ε) where
  pure a := ⟨[], .ok a⟩
  bind := Logged.bind

/-- Log one entry. -/
def emit (entry : ω) : Logged ω ε Unit := ⟨[entry], .ok ()⟩

/-- Fail without logging. -/
def fail (e : ε) : Logged ω ε α := ⟨[], .error e⟩

/-- A computation that does not log. -/
def lift (r : Except ε α) : Logged ω ε α := ⟨[], r⟩

/-- Run `f` on every element from left to right. -/
def forEach (f : α → Logged ω ε β) : List α → Logged ω ε (List β)
  | [] => pure []
  | a :: as => do
    let b ← f a
    let bs ← forEach f as
    pure (b :: bs)

/-- Log every entry of a list. -/
def emitAll (entries : List ω) : Logged ω ε Unit := ⟨entries, .ok ()⟩

/-- `x` succeeds with `a` after logging `log`. -/
def Returns (x : Logged ω ε α) (a : α) (log : List ω) : Prop := x = ⟨log, .ok a⟩

/-! ### Inversion -/

theorem returns_pure {a b : α} {log : List ω} :
    (pure a : Logged ω ε α).Returns b log ↔ b = a ∧ log = [] := by
  change (⟨[], .ok a⟩ : Logged ω ε α) = ⟨log, .ok b⟩ ↔ _
  simp only [mk.injEq, Except.ok.injEq]
  tauto

theorem returns_bind {x : Logged ω ε α} {f : α → Logged ω ε β} {b : β} {log : List ω} :
    (x >>= f).Returns b log ↔
      ∃ a first second, x.Returns a first ∧ (f a).Returns b second ∧ log = first ++ second := by
  change Logged.bind x f = ⟨log, .ok b⟩ ↔ _
  obtain ⟨xlog, xresult⟩ := x
  cases xresult with
  | error e => simp [Logged.bind, Returns]
  | ok a =>
    simp only [Logged.bind, Returns, mk.injEq, Except.ok.injEq]
    constructor
    · rintro ⟨hlog, hresult⟩
      exact ⟨a, xlog, (f a).log, ⟨rfl, rfl⟩, by rw [← hresult], hlog.symm⟩
    · rintro ⟨a', first, second, ⟨rfl, rfl⟩, hsecond, rfl⟩
      rw [hsecond]
      exact ⟨rfl, rfl⟩

theorem returns_emit {entry : ω} {u : Unit} {log : List ω} :
    (emit entry : Logged ω ε Unit).Returns u log ↔ log = [entry] := by
  simp only [emit, Returns, mk.injEq]
  tauto

theorem returns_emitAll {entries : List ω} {u : Unit} {log : List ω} :
    (emitAll entries : Logged ω ε Unit).Returns u log ↔ log = entries := by
  simp only [emitAll, Returns, mk.injEq]
  tauto

theorem returns_fail {e : ε} {a : α} {log : List ω} :
    (fail e : Logged ω ε α).Returns a log ↔ False := by
  simp [fail, Returns]

theorem returns_lift {r : Except ε α} {a : α} {log : List ω} :
    (lift r : Logged ω ε α).Returns a log ↔ r = .ok a ∧ log = [] := by
  simp only [lift, Returns, mk.injEq]
  tauto

/-- The element behind one of the related elements. -/
theorem forall₂_mem_right {R : α → β → Prop} {as : List α} {bs : List β}
    (h : List.Forall₂ R as bs) {b : β} (hb : b ∈ bs) : ∃ a ∈ as, R a b := by
  induction h with
  | nil => cases hb
  | cons hab _ ih =>
    rcases List.mem_cons.mp hb with rfl | hin
    · exact ⟨_, List.mem_cons_self, hab⟩
    · obtain ⟨a, ha, hr⟩ := ih hin
      exact ⟨a, List.mem_cons_of_mem _ ha, hr⟩

/-- The results and the logs of the elements, in order. -/
theorem returns_forEach {f : α → Logged ω ε β} {as : List α} {bs : List β} {log : List ω} :
    (forEach f as).Returns bs log ↔
      ∃ runs : List (β × List ω), List.Forall₂ (fun a r => (f a).Returns r.1 r.2) as runs ∧
        bs = runs.map Prod.fst ∧ log = (runs.map Prod.snd).flatten := by
  induction as generalizing bs log with
  | nil =>
    rw [forEach, returns_pure]
    constructor
    · rintro ⟨rfl, rfl⟩
      exact ⟨[], .nil, rfl, rfl⟩
    · rintro ⟨runs, hruns, rfl, rfl⟩
      cases hruns
      exact ⟨rfl, rfl⟩
  | cons a as ih =>
    simp only [forEach, returns_bind, returns_pure, ih]
    constructor
    · rintro ⟨b, first, rest, hb, ⟨bs', second, third, ⟨runs, hruns, rfl, rfl⟩, ⟨rfl, rfl⟩, rfl⟩,
        rfl⟩
      exact ⟨(b, first) :: runs, .cons hb hruns, rfl, by simp⟩
    · rintro ⟨runs, hruns, rfl, rfl⟩
      cases hruns with
      | @cons _ r _ runs hr hruns =>
        refine ⟨r.1, r.2, _, hr, ⟨_, _, [], ⟨runs, hruns, rfl, rfl⟩, ⟨rfl, rfl⟩, rfl⟩, ?_⟩
        rw [List.append_nil, List.map_cons, List.flatten_cons]

section

variable {f : α → Logged ω ε β} {as : List α} {bs : List β} {log : List ω}

theorem forEach_length (h : (forEach f as).Returns bs log) : bs.length = as.length := by
  obtain ⟨runs, hruns, rfl, -⟩ := returns_forEach.mp h
  rw [List.length_map, hruns.length_eq]

/-- The run of the element at an index. -/
theorem forEach_get (h : (forEach f as).Returns bs log) {k : Nat} {a : α} (ha : as[k]? = some a) :
    ∃ b inner, bs[k]? = some b ∧ (f a).Returns b inner ∧ inner ⊆ log := by
  obtain ⟨runs, hruns, rfl, rfl⟩ := returns_forEach.mp h
  obtain ⟨hk, rfl⟩ := List.getElem?_eq_some_iff.mp ha
  have hk' : k < runs.length := hruns.length_eq ▸ hk
  refine ⟨runs[k].1, runs[k].2, ?_, (List.forall₂_iff_get.mp hruns).2 k hk hk', ?_⟩
  · simp [hk']
  · intro w hw
    exact List.mem_flatten.mpr ⟨_, List.mem_map_of_mem (List.getElem_mem hk'), hw⟩

/-- The run behind the result at an index. -/
theorem forEach_get_result (h : (forEach f as).Returns bs log) {k : Nat} {b : β}
    (hb : bs[k]? = some b) : ∃ a inner, as[k]? = some a ∧ (f a).Returns b inner ∧ inner ⊆ log := by
  have hk : k < as.length := forEach_length h ▸ (List.getElem?_eq_some_iff.mp hb).1
  have ha : as[k]? = some as[k] := List.getElem?_eq_getElem hk
  obtain ⟨b', inner, hb', hrun, hsub⟩ := forEach_get h ha
  rw [hb] at hb'
  cases hb'
  exact ⟨as[k], inner, ha, hrun, hsub⟩

/-- Every log entry comes from the run of one element. -/
theorem forEach_mem_log (h : (forEach f as).Returns bs log) {w : ω} (hw : w ∈ log) :
    ∃ (k : Nat) (a : α) (b : β) (inner : List ω),
      as[k]? = some a ∧ bs[k]? = some b ∧ (f a).Returns b inner ∧ w ∈ inner ∧ inner ⊆ log := by
  obtain ⟨runs, hruns, rfl, rfl⟩ := returns_forEach.mp h
  obtain ⟨inner, hinner, hmem⟩ := List.mem_flatten.mp hw
  obtain ⟨run, hrun, rfl⟩ := List.mem_map.mp hinner
  obtain ⟨k, hk, rfl⟩ := List.getElem_of_mem hrun
  have hk' : k < as.length := hruns.length_eq ▸ hk
  refine ⟨k, as[k], runs[k].1, runs[k].2, List.getElem?_eq_getElem hk', ?_,
    (List.forall₂_iff_get.mp hruns).2 k hk' hk, hmem, ?_⟩
  · simp [hk]
  · exact fun w hw => List.mem_flatten.mpr ⟨_, hinner, hw⟩

end

theorem Returns.log_eq {x : Logged ω ε α} {a : α} {log : List ω} (h : x.Returns a log) :
    x.log = log := congrArg Logged.log h

theorem Returns.unique {x : Logged ω ε α} {a b : α} {log log' : List ω}
    (h : x.Returns a log) (h' : x.Returns b log') : a = b ∧ log = log' := by
  rw [Returns] at h h'
  rw [h] at h'
  cases h'
  exact ⟨rfl, rfl⟩

/-! ### Failures -/

/-- Every failure is an allowed one. -/
def FailsOnly (allowed : ε → Prop) (x : Logged ω ε α) : Prop :=
  ∀ e, x.result = .error e → allowed e

section

variable {allowed : ε → Prop}

theorem FailsOnly.pure (a : α) : FailsOnly allowed (Pure.pure a : Logged ω ε α) :=
  fun _ h => nomatch h

theorem FailsOnly.emit (entry : ω) : FailsOnly allowed (Logged.emit entry : Logged ω ε Unit) :=
  fun _ h => nomatch h

theorem FailsOnly.emitAll (entries : List ω) :
    FailsOnly allowed (Logged.emitAll entries : Logged ω ε Unit) :=
  fun _ h => nomatch h

theorem FailsOnly.lift {r : Except ε α} (h : ∀ e, r = .error e → allowed e) :
    FailsOnly allowed (Logged.lift r : Logged ω ε α) := h

/-- Either a computation returns or it fails in an allowed way. -/
theorem FailsOnly.returns_or {x : Logged ω ε α} (h : FailsOnly allowed x) :
    (∃ a log, x.Returns a log) ∨ ∃ e, x.result = .error e ∧ allowed e := by
  obtain ⟨log, result⟩ := x
  cases result with
  | ok a => exact .inl ⟨a, log, rfl⟩
  | error e => exact .inr ⟨e, rfl, h e rfl⟩

theorem FailsOnly.bind {x : Logged ω ε α} (h : FailsOnly allowed x) {f : α → Logged ω ε β}
    (hf : ∀ a log, x.Returns a log → FailsOnly allowed (f a)) : FailsOnly allowed (x >>= f) := by
  obtain ⟨log, result⟩ := x
  cases result with
  | ok a => exact hf a log rfl
  | error e =>
    intro e' he
    cases he
    exact h e rfl

/-- After a lifted outcome that is known. -/
theorem FailsOnly.bind_ok {r : Except ε α} {a : α} (h : r = .ok a) {f : α → Logged ω ε β}
    (hf : FailsOnly allowed (f a)) : FailsOnly allowed (Logged.lift r >>= f) := by
  subst h
  exact hf

theorem FailsOnly.forEach {f : α → Logged ω ε β} {as : List α}
    (h : ∀ a ∈ as, FailsOnly allowed (f a)) : FailsOnly allowed (forEach f as) := by
  induction as with
  | nil => exact .pure []
  | cons a as ih =>
    refine (h a List.mem_cons_self).bind fun b _ _ => ?_
    refine (ih fun a ha => h a (List.mem_cons_of_mem _ ha)).bind fun bs _ _ => ?_
    exact .pure (b :: bs)

theorem FailsOnly.mono {allowed' : ε → Prop} {x : Logged ω ε α} (h : FailsOnly allowed x)
    (himp : ∀ e, allowed e → allowed' e) : FailsOnly allowed' x :=
  fun e he => himp e (h e he)

end

/-! ### Related computations -/

/-- The same log, and results that are related or the same failure. -/
def Alike {β : Type} (R : α → β → Prop) (x : Logged ω ε α) (y : Logged ω ε β) : Prop :=
  x.log = y.log ∧
    match x.result, y.result with
    | .ok a, .ok b => R a b
    | .error e, .error e' => e = e'
    | _, _ => False

section

variable {γ δ : Type} {R : α → β → Prop} {S : γ → δ → Prop}

theorem Alike.pure {a : α} {b : β} (h : R a b) :
    Alike R (Pure.pure a : Logged ω ε α) (Pure.pure b) := ⟨rfl, h⟩

theorem Alike.refl {R : α → α → Prop} (hR : ∀ a, R a a) (x : Logged ω ε α) : Alike R x x := by
  obtain ⟨log, result⟩ := x
  cases result with
  | ok a => exact ⟨rfl, hR a⟩
  | error e => exact ⟨rfl, rfl⟩

theorem Alike.bind {x : Logged ω ε α} {y : Logged ω ε β} (h : Alike R x y)
    {f : α → Logged ω ε γ} {g : β → Logged ω ε δ} (hfg : ∀ a b, R a b → Alike S (f a) (g b)) :
    Alike S (x >>= f) (y >>= g) := by
  obtain ⟨xlog, xresult⟩ := x
  obtain ⟨ylog, yresult⟩ := y
  obtain ⟨rfl, hresult⟩ := h
  cases xresult <;> cases yresult
  case error.error => exact ⟨rfl, hresult⟩
  case ok.ok a b =>
    obtain ⟨hlog, hrest⟩ := hfg a b hresult
    exact ⟨congrArg (xlog ++ ·) hlog, hrest⟩
  all_goals exact hresult.elim

/-- The same first step. -/
theorem Alike.bind_same {x : Logged ω ε α} {f : α → Logged ω ε γ} {g : α → Logged ω ε δ}
    (h : ∀ a, Alike S (f a) (g a)) : Alike S (x >>= f) (x >>= g) := by
  refine (Alike.refl (R := Eq) (fun _ => rfl) x).bind fun a b hab => ?_
  subst hab
  exact h a

theorem Alike.forEach {f : γ → Logged ω ε α} {g : γ → Logged ω ε β} {items : List γ}
    (h : ∀ c ∈ items, Alike R (f c) (g c)) :
    Alike (List.Forall₂ R) (forEach f items) (forEach g items) := by
  induction items with
  | nil => exact .pure .nil
  | cons c items ih =>
    refine (h c List.mem_cons_self).bind fun a b hab => ?_
    refine (ih fun c hc => h c (List.mem_cons_of_mem _ hc)).bind fun as bs habs => ?_
    exact .pure (.cons hab habs)

theorem Alike.symm {x : Logged ω ε α} {y : Logged ω ε β} (h : Alike R x y) :
    Alike (fun b a => R a b) y x := by
  obtain ⟨xlog, xresult⟩ := x
  obtain ⟨ylog, yresult⟩ := y
  obtain ⟨hlog, hresult⟩ := h
  cases xresult <;> cases yresult
  case error.error => exact ⟨hlog.symm, hresult.symm⟩
  case ok.ok a b => exact ⟨hlog.symm, hresult⟩
  all_goals exact hresult.elim

theorem Alike.failsOnly {allowed : ε → Prop} {x : Logged ω ε α} {y : Logged ω ε β}
    (h : Alike R x y) (hy : FailsOnly allowed y) : FailsOnly allowed x := by
  obtain ⟨xlog, xresult⟩ := x
  obtain ⟨ylog, yresult⟩ := y
  obtain ⟨-, hresult⟩ := h
  intro e he
  cases xresult with
  | ok a => cases he
  | error e' =>
    cases he
    cases yresult with
    | ok b => exact hresult.elim
    | error e'' =>
      cases hresult
      exact hy e rfl

/-- A successful computation carries over to any computation like it. -/
theorem Alike.returns {x : Logged ω ε α} {y : Logged ω ε β} (h : Alike R x y) {a : α}
    {log : List ω} (hx : x.Returns a log) : ∃ b, y.Returns b log ∧ R a b := by
  obtain ⟨ylog, yresult⟩ := y
  cases hx
  obtain ⟨rfl, hresult⟩ := h
  cases yresult with
  | ok b => exact ⟨b, rfl, hresult⟩
  | error e => exact hresult.elim

end

/-! ### Related logs -/

/-- Logs that are related entry by entry, and results that are related or the same failure. -/
def Related {ω' β : Type} (E : ω → ω' → Prop) (R : α → β → Prop) (x : Logged ω ε α)
    (y : Logged ω' ε β) : Prop :=
  List.Forall₂ E x.log y.log ∧
    match x.result, y.result with
    | .ok a, .ok b => R a b
    | .error e, .error e' => e = e'
    | _, _ => False

section

variable {ω' γ δ : Type} {E : ω → ω' → Prop} {R : α → β → Prop} {S : γ → δ → Prop}

theorem Related.log {x : Logged ω ε α} {y : Logged ω' ε β} (h : Related E R x y) :
    List.Forall₂ E x.log y.log := h.1

theorem Related.outcomes {x : Logged ω ε α} {y : Logged ω' ε β} (h : Related E R x y) :
    Outcomes R x.result y.result := by
  obtain ⟨xlog, xresult⟩ := x
  obtain ⟨ylog, yresult⟩ := y
  obtain ⟨-, hresult⟩ := h
  cases xresult <;> cases yresult
  case error.error =>
    cases hresult
    exact .error _
  case ok.ok => exact .ok hresult
  all_goals exact hresult.elim

theorem Related.pure {a : α} {b : β} (h : R a b) :
    Related E R (Pure.pure a : Logged ω ε α) (Pure.pure b : Logged ω' ε β) := ⟨.nil, h⟩

theorem Related.fail (e : ε) :
    Related E R (Logged.fail e : Logged ω ε α) (Logged.fail e : Logged ω' ε β) := ⟨.nil, rfl⟩

theorem Related.emit {entry : ω} {entry' : ω'} (h : E entry entry') :
    Related E (fun _ _ => True) (Logged.emit entry : Logged ω ε Unit)
      (Logged.emit entry' : Logged ω' ε Unit) :=
  ⟨.cons h .nil, trivial⟩

theorem Related.emitAll {entries : List ω} {entries' : List ω'}
    (h : List.Forall₂ E entries entries') :
    Related E (fun _ _ => True) (Logged.emitAll entries : Logged ω ε Unit)
      (Logged.emitAll entries' : Logged ω' ε Unit) :=
  ⟨h, trivial⟩

/-- A lifted outcome both computations share. -/
theorem Related.lift_same (r : Except ε α) :
    Related E Eq (Logged.lift r : Logged ω ε α) (Logged.lift r : Logged ω' ε α) := by
  cases r <;> exact ⟨.nil, rfl⟩

theorem Related.bind {x : Logged ω ε α} {y : Logged ω' ε β} (h : Related E R x y)
    {f : α → Logged ω ε γ} {g : β → Logged ω' ε δ} (hfg : ∀ a b, R a b → Related E S (f a) (g b)) :
    Related E S (x >>= f) (y >>= g) := by
  obtain ⟨xlog, xresult⟩ := x
  obtain ⟨ylog, yresult⟩ := y
  obtain ⟨hlog, hresult⟩ := h
  cases xresult <;> cases yresult
  case error.error => exact ⟨hlog, hresult⟩
  case ok.ok a b =>
    obtain ⟨hlog', hrest⟩ := hfg a b hresult
    exact ⟨List.rel_append hlog hlog', hrest⟩
  all_goals exact hresult.elim

/-- After a lifted outcome both computations share. -/
theorem Related.bind_lift (r : Except ε α) {f : α → Logged ω ε γ} {g : α → Logged ω' ε δ}
    (hfg : ∀ a, Related E S (f a) (g a)) :
    Related E S (Logged.lift r >>= f) (Logged.lift r >>= g) :=
  (Related.lift_same r).bind fun a _ hab => hab ▸ hfg a

theorem Related.forEach {f : γ → Logged ω ε α} {g : δ → Logged ω' ε β} {items : List γ}
    {items' : List δ} (hitems : List.Forall₂ S items items')
    (h : ∀ c d, S c d → Related E R (f c) (g d)) :
    Related E (List.Forall₂ R) (forEach f items) (forEach g items') := by
  induction hitems with
  | nil => exact .pure .nil
  | cons hcd _ ih =>
    refine (h _ _ hcd).bind fun a b hab => ?_
    refine ih.bind fun as bs habs => ?_
    exact .pure (.cons hab habs)

end

end Logged

end Zeroshot
