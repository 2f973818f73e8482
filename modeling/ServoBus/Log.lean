/-!
# Messages

A computation may report messages beside its value. `Logged` pairs the two and can
only add messages, so a value never depends on what was reported before it: taking
the value is a map of monads, which the lemmas on `value` say.
-/

namespace ServoBus

inductive Level where
  | error
  | warn
  | info
  | debug
deriving DecidableEq, Repr

structure Message where
  level : Level
  text : String
deriving DecidableEq, Repr

structure Logged (α : Type) where
  value : α
  messages : List Message

namespace Logged

variable {α β : Type}

instance : Monad Logged where
  pure a := ⟨a, []⟩
  bind x f := ⟨(f x.value).value, x.messages ++ (f x.value).messages⟩

@[simp] theorem value_pure (a : α) : (pure a : Logged α).value = a := rfl

@[simp] theorem messages_pure (a : α) : (pure a : Logged α).messages = [] := rfl

@[simp] theorem value_bind (x : Logged α) (f : α → Logged β) :
    (x >>= f).value = (f x.value).value := rfl

@[simp] theorem messages_bind (x : Logged α) (f : α → Logged β) :
    (x >>= f).messages = x.messages ++ (f x.value).messages := rfl

@[simp] theorem value_map (g : α → β) (x : Logged α) : (g <$> x).value = g x.value := rfl

@[simp] theorem messages_map (g : α → β) (x : Logged α) : (g <$> x).messages = x.messages :=
  List.append_nil _

instance : LawfulMonad Logged :=
  LawfulMonad.mk' Logged
    (fun x => by
      cases x
      simp [Functor.map])
    (fun _ _ => rfl)
    (fun x f g => by simp [bind, List.append_assoc])

def report (level : Level) (text : String) : Logged Unit := ⟨(), [⟨level, text⟩]⟩

@[simp] theorem value_report (level : Level) (text : String) : (report level text).value = () := rfl

def error (text : String) : Logged Unit := report .error text

def warn (text : String) : Logged Unit := report .warn text

def info (text : String) : Logged Unit := report .info text

def debug (text : String) : Logged Unit := report .debug text

end Logged

end ServoBus
