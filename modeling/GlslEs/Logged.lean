/-!
# Values with a log

A value together with the list of what happened on the way to it.  Steps that are done one
after the other join their logs in the same order.
-/

namespace GlslEs

/-- A value and what happened on the way to it. -/
structure Logged (ε : Type) (α : Type) where
  value : α
  log : List ε
deriving Repr

namespace Logged

variable {ε α β : Type}

def quiet (a : α) : Logged ε α := ⟨a, []⟩

def noting (e : ε) (a : α) : Logged ε α := ⟨a, [e]⟩

def andThen (x : Logged ε α) (f : α → Logged ε β) : Logged ε β :=
  let y := f x.value
  ⟨y.value, x.log ++ y.log⟩

instance : Monad (Logged ε) where
  pure := quiet
  bind := andThen

def note (e : ε) : Logged ε Unit := ⟨(), [e]⟩

end Logged

end GlslEs
