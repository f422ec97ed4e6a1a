import Mathlib

namespace Ak24.Dialogs

variable {Call : Type} {Answer : Call → Type} {α β σ : Type}

/-- A program that calls its environment and goes on with the answers. -/
inductive Prog (Answer : Call → Type) (α : Type)
  | done (a : α)
  | ask (call : Call) (next : Answer call → Prog Answer α)

def Prog.bind : Prog Answer α → (α → Prog Answer β) → Prog Answer β
  | .done a, f => f a
  | .ask call next, f => .ask call fun answer => (next answer).bind f

instance : Monad (Prog Answer) where
  pure := .done
  bind := .bind

def ask (call : Call) : Prog Answer (Answer call) := .ask call .done

/-- An environment: the calls it takes in a state, and the answers it can give
with the states they leave. -/
structure Environment (Answer : Call → Type) (σ : Type) where
  legal : σ → Call → Prop
  replies : σ → (call : Call) → Answer call → σ → Prop

variable {env : Environment Answer σ}

/-- From these states, the program makes legal calls only, and ends in `Q`. -/
def wp (env : Environment Answer σ) : Prog Answer α → (α → σ → Prop) → σ → Prop
  | .done a, Q, s => Q a s
  | .ask call next, Q, s => env.legal s call ∧ ∀ answer s', env.replies s call answer s' → wp env (next answer) Q s'

section Rules

variable {p : Prog Answer α} {f : α → Prog Answer β} {Q Q' : α → σ → Prop} {R : β → σ → Prop} {s : σ}

@[simp]
theorem wp_pure (a : α) : wp env (pure a) Q s ↔ Q a s := Iff.rfl

theorem wp_ask {call : Call} {Q : Answer call → σ → Prop} (hlegal : env.legal s call)
    (hnext : ∀ answer s', env.replies s call answer s' → Q answer s') : wp env (ask call) Q s :=
  ⟨hlegal, hnext⟩

theorem wp_mono (h : wp env p Q s) (hQ : ∀ a s, Q a s → Q' a s) : wp env p Q' s := by
  induction p generalizing s with
  | done a => exact hQ a s h
  | ask call next ih => exact ⟨h.1, fun answer s' hreply => ih answer (h.2 answer s' hreply)⟩

theorem wp_bind (h : wp env p (fun a => wp env (f a) R) s) : wp env (p >>= f) R s := by
  induction p generalizing s with
  | done a => exact h
  | ask call next ih => exact ⟨h.1, fun answer s' hreply => ih answer (h.2 answer s' hreply)⟩

/-- One call, and the rest from each of its answers. -/
theorem wp_step {call : Call} {f : Answer call → Prog Answer β} (hlegal : env.legal s call)
    (hnext : ∀ answer s', env.replies s call answer s' → wp env (f answer) R s') : wp env (ask call >>= f) R s :=
  wp_bind (wp_ask hlegal hnext)

end Rules

inductive Steps (env : Environment Answer σ) (p : Prog Answer α) (s : σ) : Prog Answer α → σ → Prop
  | start : Steps env p s p s
  | ask {call : Call} {next : Answer call → Prog Answer α} {s' s'' : σ} (answer : Answer call) :
    Steps env p s (.ask call next) s' → env.replies s' call answer s'' → Steps env p s (next answer) s''

section Runs

variable {p p' : Prog Answer α} {Q : α → σ → Prop} {s s' : σ}

theorem wp_steps (h : wp env p Q s) (hsteps : Steps env p s p' s') : wp env p' Q s' := by
  induction hsteps with
  | start => exact h
  | ask answer _ hreply ih => exact ih.2 answer _ hreply

theorem legal_of_wp (h : wp env p Q s) {call : Call} {next : Answer call → Prog Answer α}
    (hsteps : Steps env p s (.ask call next) s') : env.legal s' call :=
  (wp_steps h hsteps).1

theorem post_of_wp (h : wp env p Q s) {a : α} (hsteps : Steps env p s (.done a) s') : Q a s' :=
  wp_steps h hsteps

/-- The program with an environment that has one answer to each call. -/
def Prog.run (reply : σ → (call : Call) → Answer call × σ) : Prog Answer α → σ → α × σ
  | .done a, s => (a, s)
  | .ask call next, s => (next (reply s call).1).run reply (reply s call).2

theorem Steps.prepend {p' : Prog Answer α} {call : Call} {next : Answer call → Prog Answer α} {s'' : σ}
    {answer : Answer call} (hreply : env.replies s call answer s') (h : Steps env (next answer) s' p' s'') :
    Steps env (.ask call next) s p' s'' := by
  induction h with
  | start => exact .ask answer .start hreply
  | ask answer' _ hreply' ih => exact .ask answer' ih hreply'

theorem steps_run {reply : σ → (call : Call) → Answer call × σ}
    (hreply : ∀ s call, env.legal s call → env.replies s call (reply s call).1 (reply s call).2)
    (h : wp env p Q s) : Steps env p s (.done (p.run reply s).1) (p.run reply s).2 := by
  induction p generalizing s with
  | done a => exact .start
  | ask call next ih =>
      have hcall := hreply s call h.1
      exact .prepend hcall (ih _ (h.2 _ _ hcall))

end Runs

end Ak24.Dialogs
