import Mathlib.Logic.Basic

set_option autoImplicit false

/-!
# Labelled paths

`Path moves p labels q`: reading the labels one after another moves from `p` to `q`. A queue between
two parties is described by the path its contents make: taking the first label moves the reader,
putting one at the end moves the writer.
-/

namespace Zeroshot

variable {σ ι : Type}

inductive Path (moves : σ → ι → σ → Prop) : σ → List ι → σ → Prop
  | nil (p : σ) : Path moves p [] p
  | cons {p q r : σ} {label : ι} {labels : List ι} :
      moves p label q → Path moves q labels r → Path moves p (label :: labels) r

namespace Path

variable {moves moves' : σ → ι → σ → Prop} {p q r : σ} {label : ι} {labels labels' : List ι}

theorem nil_eq (h : Path moves p [] q) : p = q := by
  cases h
  rfl

theorem cons_inv (h : Path moves p (label :: labels) r) :
    ∃ q, moves p label q ∧ Path moves q labels r := by
  cases h with
  | cons hmove hrest => exact ⟨_, hmove, hrest⟩

theorem single (h : moves p label q) : Path moves p [label] q :=
  .cons h (.nil q)

theorem append (h : Path moves p labels q) (h' : Path moves q labels' r) :
    Path moves p (labels ++ labels') r := by
  induction h with
  | nil p => exact h'
  | cons hmove _ ih => exact .cons hmove (ih h')

theorem concat (h : Path moves p labels q) (hmove : moves q label r) :
    Path moves p (labels ++ [label]) r :=
  h.append (single hmove)

theorem mono (hmono : ∀ p label q, moves p label q → moves' p label q)
    (h : Path moves p labels q) : Path moves' p labels q := by
  induction h with
  | nil p => exact .nil p
  | cons hmove _ ih => exact .cons (hmono _ _ _ hmove) ih

end Path

end Zeroshot
