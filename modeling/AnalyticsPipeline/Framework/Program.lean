import Mathlib.Logic.Function.Basic

/-!
# Effectful programs

A program is a tree of calls to the outside world: each node issues one call
and continues with whatever the world answers. The same tree is run alone
(`Framework.Interleaving`, `Eval`) and interleaved with others (`Reach`), so a
program is written once, in `do` notation, with exceptions as in the source.
-/

namespace Framework

inductive Prog {Call : Type} (Res : Call → Type) (ε α : Type) where
  | ret (r : Except ε α)
  | call (c : Call) (k : Res c → Prog Res ε α)

namespace Prog

variable {Call : Type} {Res : Call → Type} {ε α β γ : Type}

protected def bind : Prog Res ε α → (α → Prog Res ε β) → Prog Res ε β
  | .ret (.ok a), f => f a
  | .ret (.error e), _ => .ret (.error e)
  | .call c k, f => .call c (fun x => (k x).bind f)

/-- `try p except e: h e`. -/
protected def tryCatch : Prog Res ε α → (ε → Prog Res ε α) → Prog Res ε α
  | .ret (.ok a), _ => .ret (.ok a)
  | .ret (.error e), h => h e
  | .call c k, h => .call c (fun x => (k x).tryCatch h)

instance : Monad (Prog Res ε) where
  pure a := .ret (.ok a)
  bind := Prog.bind

instance : MonadExceptOf ε (Prog Res ε) where
  throw e := .ret (.error e)
  tryCatch := Prog.tryCatch

/-- The program that issues one call and returns its answer. -/
def perform (c : Call) : Prog Res ε (Res c) :=
  .call c (fun x => .ret (.ok x))

@[simp] theorem pure_eq (a : α) : (pure a : Prog Res ε α) = .ret (.ok a) := rfl

@[simp] theorem throw_eq (e : ε) :
    (throw e : Prog Res ε α) = .ret (.error e) := rfl

@[simp] theorem ok_bind (a : α) (f : α → Prog Res ε β) :
    (Prog.ret (.ok a) >>= f) = f a := rfl

@[simp] theorem error_bind (e : ε) (f : α → Prog Res ε β) :
    (Prog.ret (.error e) >>= f) = .ret (.error e) := rfl

@[simp] theorem call_bind (c : Call) (k : Res c → Prog Res ε α)
    (f : α → Prog Res ε β) :
    (Prog.call c k >>= f) = .call c (fun x => k x >>= f) := rfl

@[simp] theorem ok_tryCatch (a : α) (h : ε → Prog Res ε α) :
    (tryCatch (Prog.ret (.ok a)) h : Prog Res ε α) = .ret (.ok a) := rfl

@[simp] theorem error_tryCatch (e : ε) (h : ε → Prog Res ε α) :
    (tryCatch (Prog.ret (.error e) : Prog Res ε α) h) = h e := rfl

@[simp] theorem call_tryCatch (c : Call) (k : Res c → Prog Res ε α)
    (h : ε → Prog Res ε α) :
    (tryCatch (Prog.call c k) h) =
      .call c (fun x => tryCatch (k x) h) := rfl

theorem bind_assoc (p : Prog Res ε α) (f : α → Prog Res ε β)
    (g : β → Prog Res ε γ) :
    ((p >>= f) >>= g) = (p >>= fun a => f a >>= g) := by
  induction p with
  | ret r => cases r <;> rfl
  | call c k ih =>
      simp only [call_bind]
      congr 1
      funext x
      exact ih x

theorem bind_pure (p : Prog Res ε α) : (p >>= fun a => .ret (.ok a)) = p := by
  induction p with
  | ret r => cases r <;> rfl
  | call c k ih =>
      simp only [call_bind]
      congr 1
      funext x
      exact ih x

instance : LawfulMonad (Prog Res ε) :=
  LawfulMonad.mk' _ bind_pure (fun _ _ => rfl) bind_assoc

end Prog

end Framework
