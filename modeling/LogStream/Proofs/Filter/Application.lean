import LogStream.Filter.Evaluator
import LogStream.Proofs.Outcome

/-! # Calls of functions on values

Where the receiver and the arguments of a call have values, the call is what its function makes of them
(`eval_method`, `eval_global`). -/

namespace LogStream.Filter

variable {env : Activation} {e : Expr} {es : List Expr} {v : Dyn} {vs : List Dyn} {name : Text} {f : Builtin}

theorem evalAll_nil : evalAll env [] = .ok [] := rfl

theorem evalAll_cons (he : eval env e = .ok v) (hes : evalAll env es = .ok vs) :
    evalAll env (e :: es) = .ok (v :: vs) := by
  rw [evalAll, he, ok_bind, hes]
  rfl

/-- A call on a receiver. -/
theorem eval_method (hf : Builtin.member? name = some f) (he : eval env e = .ok v)
    (hes : evalAll env es = .ok vs) (pos : Nat) :
    eval env (.method pos name e es) = called name (f.apply (v :: vs)) := by
  rw [eval, he, ok_bind, hes, ok_bind, hf]
  rfl

/-- A call on what fails. -/
theorem eval_method_of_error {failure : EvalFailure} (he : eval env e = .error failure) (pos : Nat) :
    eval env (.method pos name e es) = called name (.error failure) := by
  rw [eval, he]
  rfl

/-- A call by name alone. -/
theorem eval_global (hf : Builtin.global? name = some f) (hes : evalAll env es = .ok vs)
    (pos : Nat) : eval env (.call pos name es) = called name (f.apply vs) := by
  rw [eval, hes, ok_bind, hf]
  rfl

/-- An error that shows a value is one of the call. -/
theorem called_failShowing (name : Text) (v : Dyn) (err : EvalError) :
    called name (Eval.failShowing v err) = Eval.failShowing v err := by
  unfold Eval.failShowing
  split <;> rfl

end LogStream.Filter
