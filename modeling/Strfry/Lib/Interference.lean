import Mathlib

/-!
# Programs under interference

A program is a tree of atomic calls to a world that it shares with others. Between two calls, before the
first one and after the last one, the others may take any number of steps. `Outcome` relates the world in
which a program starts to what it returns and the world that it leaves.

`Ensures` is a triple of a precondition and a postcondition. A condition on the world is of use only when
it is `Stable`: the steps of the others keep it.
-/

set_option autoImplicit false

namespace Strfry.Lib

/-- A program of atomic calls; `result op` is the type of what the call `op` returns. -/
inductive Prog (Op : Type) (result : Op → Type) (α : Type)
  | done (a : α)
  | call (op : Op) (next : result op → Prog Op result α)

section Interference

variable {Op : Type} {result : Op → Type} {α β W : Type}

/-- One program after another. -/
def Prog.bind : Prog Op result α → (α → Prog Op result β) → Prog Op result β
  | .done a, f => f a
  | .call op next, f => .call op fun r => (next r).bind f

instance : Monad (Prog Op result) where
  pure := .done
  bind := Prog.bind

/-- The program of a single call. -/
def Prog.request (op : Op) : Prog Op result (result op) := .call op .done

variable (exec : (op : Op) → W → Option (result op × W)) (other : W → W → Prop)

/-- What a program may return, and the world afterwards, when the others step in between. -/
inductive Outcome : Prog Op result α → W → α → W → Prop
  | interfere {p : Prog Op result α} {w w₁ w' : W} {a : α} (hother : other w w₁)
      (hrest : Outcome p w₁ a w') : Outcome p w a w'
  | done {w : W} {a : α} : Outcome (.done a) w a w
  | call {op : Op} {next : result op → Prog Op result α} {w w₁ w' : W} {r : result op} {a : α}
      (hexec : exec op w = some (r, w₁)) (hrest : Outcome (next r) w₁ a w') :
      Outcome (.call op next) w a w'

/-- The steps of the others keep the condition. -/
def Stable (P : W → Prop) : Prop := ∀ w w', other w w' → P w → P w'

/-- Whatever the program returns from a world with the precondition, the postcondition holds. -/
def Ensures (P : W → Prop) (p : Prog Op result α) (Q : α → W → Prop) : Prop :=
  ∀ w a w', Outcome exec other p w a w' → P w → Q a w'

variable {exec other} {P P' : W → Prop} {p : Prog Op result α}

theorem Stable.and (hP : Stable other P) (hP' : Stable other P') : Stable other fun w => P w ∧ P' w :=
  fun w w' hother h => ⟨hP w w' hother h.1, hP' w w' hother h.2⟩

theorem stable_const (c : Prop) : Stable other fun _ => c := fun _ _ _ h => h

theorem Ensures.mono {Q Q' : α → W → Prop} (h : Ensures exec other P p Q) (hP : ∀ w, P' w → P w)
    (hQ : ∀ a w, Q a w → Q' a w) : Ensures exec other P' p Q' :=
  fun w a w' hout hw => hQ a w' (h w a w' hout (hP w hw))

theorem ensures_pure {Q : α → W → Prop} {a : α} (hstable : Stable other (Q a)) :
    Ensures exec other (Q a) (pure a : Prog Op result α) Q := by
  intro w b w' hout hw
  generalize hp : (pure a : Prog Op result α) = p at hout
  induction hout with
  | interfere hother _ ih => exact ih (hstable _ _ hother hw) hp
  | done =>
    cases hp
    exact hw
  | call => cases hp

/-- A call is made in a world with the precondition, when that is stable. -/
theorem ensures_request {op : Op} {Q : result op → W → Prop} (hP : Stable other P)
    (hQ : ∀ r, Stable other (Q r)) (hexec : ∀ w r w', P w → exec op w = some (r, w') → Q r w') :
    Ensures exec other P (.request op) Q := by
  intro w r w' hout hw
  generalize hp : (Prog.request op : Prog Op result (result op)) = p at hout
  induction hout with
  | interfere hother _ ih => exact ih (hP _ _ hother hw) hp
  | done => cases hp
  | call hcall hrest =>
    cases hp
    exact ensures_pure (hQ _) _ _ _ hrest (hexec _ _ _ hw hcall)

/-- An outcome of one program after another is an outcome of the first and one of the second. -/
theorem outcome_bind_iff {f : α → Prog Op result β} {w w' : W} {b : β} :
    Outcome exec other (p >>= f) w b w' ↔
      ∃ a w₁, Outcome exec other p w a w₁ ∧ Outcome exec other (f a) w₁ b w' := by
  constructor
  · intro h
    generalize hq : (p >>= f) = q at h
    induction h generalizing p with
    | interfere hother _ ih =>
      obtain ⟨a, w₁, hp, hf⟩ := ih hq
      exact ⟨a, w₁, .interfere hother hp, hf⟩
    | done =>
      cases p with
      | done a =>
        have hfa : f a = .done _ := hq
        exact ⟨a, _, .done, hfa ▸ .done⟩
      | call op next => cases hq
    | call hexec hrest ih =>
      cases p with
      | done a =>
        have hfa : f a = .call _ _ := hq
        exact ⟨a, _, .done, hfa ▸ .call hexec hrest⟩
      | call op next =>
        cases hq
        obtain ⟨a, w₁, hp, hf⟩ := ih rfl
        exact ⟨a, w₁, .call hexec hp, hf⟩
  · rintro ⟨a, w₁, hp, hf⟩
    induction hp with
    | interfere hother _ ih => exact .interfere hother (ih hf)
    | done => exact hf
    | call hexec _ ih => exact .call hexec (ih hf)

theorem ensures_bind {R : α → W → Prop} {Q : β → W → Prop} {f : α → Prog Op result β}
    (hp : Ensures exec other P p R) (hf : ∀ a, Ensures exec other (R a) (f a) Q) :
    Ensures exec other P (p >>= f) Q := by
  intro w b w' hout hw
  obtain ⟨a, w₁, hfirst, hsecond⟩ := outcome_bind_iff.mp hout
  exact hf a w₁ b w' hsecond (hp w a w₁ hfirst hw)

/-- A call that nobody interferes with. -/
theorem outcome_request {op : Op} {r : result op} {w w' : W} (hexec : exec op w = some (r, w')) :
    Outcome exec other (.request op) w r w' := .call hexec .done

end Interference

end Strfry.Lib
