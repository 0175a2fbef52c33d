import CurlScribe.Error

/-!
# Warnings and outcomes

A conversion may have something to tell that does not stop it. Such warnings are never printed
where they arise; a step returns them, in order, beside what it comes to. When a step fails, the
warnings of the steps before it are kept.
-/

namespace CurlScribe

/-- A remark on a command, and the flag that it concerns, as the command writes it. -/
structure Warning where
  flag : Option Text
  message : Text
deriving DecidableEq, Repr

namespace Warning

/-- A remark on the flag `flag`. -/
def ofFlag (flag message : Text) : Warning := ⟨some flag, message⟩

/-- The remark as it is shown. -/
def shown (w : Warning) : Text :=
  match w.flag with
  | some flag => flag ++ ": ".toList ++ w.message
  | none => w.message

end Warning

/-- What a step comes to, and the warnings that it gave on the way. -/
structure Outcome (α : Type) where
  result : Except Error α
  warnings : List Warning

namespace Outcome

/-- A step that succeeds without a warning. -/
def ok {α : Type} (a : α) : Outcome α := ⟨.ok a, []⟩

/-- A step that fails without a warning. -/
def fail {α : Type} (e : Error) : Outcome α := ⟨.error e, []⟩

/-- A step that only warns. -/
def warn (ws : List Warning) : Outcome Unit := ⟨.ok (), ws⟩

/-- A step that cannot warn. -/
def ofExcept {α : Type} (r : Except Error α) : Outcome α := ⟨r, []⟩

/-- One step after another; the second is not taken if the first fails. -/
def andThen {α β : Type} (x : Outcome α) (f : α → Outcome β) : Outcome β :=
  match x.result with
  | .ok a => ⟨(f a).result, x.warnings ++ (f a).warnings⟩
  | .error e => ⟨.error e, x.warnings⟩

instance : Monad Outcome where
  pure := ok
  bind := andThen

/-- The steps for all members of a list, in order. -/
def forAll {α β : Type} (f : α → Outcome β) : List α → Outcome (List β)
  | [] => ok []
  | a :: rest => (f a).andThen fun b => (forAll f rest).andThen fun bs => ok (b :: bs)

end Outcome
end CurlScribe
