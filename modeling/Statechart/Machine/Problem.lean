import Statechart.Text.Split

/-! What can be wrong with a definition, and `Checked`: a value together with the problems met on
the way to it. Problems add up and none keeps the rest from being checked. -/

namespace Statechart

universe u v

inductive Problem where
  | unresolvedTarget (state target : String)
  | missingInitial (state : String)
  | invalidInitial (state initial : String)
  | duplicateId (id : String)
  | leafWithChildren (state kind : String)
  | invalidHistory (state reason : String)
  | unknownGuard (state guard : String)
  | unknownAction (state action : String)
  | unknownService (state service : String)
  | unknownActivity (state activity : String)
  | unknownDelay (state delay : String)
  | unknownDataMapper (state mapper : String)
  | unresolvedInState (state descriptor : String)
  | invalidContext (detail : String)
  | unreadable (detail : String)
  deriving DecidableEq

namespace Problem

def message : Problem → String
  | unresolvedTarget state target =>
    "Transition target '" ++ target ++ "' from state '" ++ state ++
      "' does not resolve to any state"
  | missingInitial state =>
    "Compound state '" ++ state
      ++ "' has no initial state. Set \x60initial\x60 to one of its children"
  | invalidInitial state initial =>
    "Initial state '" ++ initial ++ "' of '" ++ state ++ "' is not a child of it"
  | duplicateId id => "Id '" ++ id ++ "' is used by more than one state or invocation"
  | leafWithChildren state kind =>
    "State '" ++ state ++ "' is declared " ++ kind ++ " but has child states"
  | invalidHistory state reason => "History state '" ++ state ++ "' is invalid: " ++ reason
  | unknownGuard state guard =>
    "State '" ++ state ++ "' references unknown guard '" ++ guard ++ "'"
  | unknownAction state action =>
    "State '" ++ state ++ "' references unknown action '" ++ action ++ "'"
  | unknownService state service =>
    "State '" ++ state ++ "' invokes unknown service '" ++ service ++ "'"
  | unknownActivity state activity =>
    "State '" ++ state ++ "' references unknown activity '" ++ activity ++ "'"
  | unknownDelay state delay =>
    "State '" ++ state ++ "' references unknown delay '" ++ delay ++ "'"
  | unknownDataMapper state mapper =>
    "State '" ++ state ++ "' references unknown data mapper '" ++ mapper ++ "'"
  | unresolvedInState state descriptor =>
    "Condition \x60in: " ++ descriptor ++ "\x60 on a transition from '" ++ state
      ++ "' does not resolve to any state"
  | invalidContext detail => "Initial context could not be decoded: " ++ detail
  | unreadable detail => "Machine configuration could not be parsed: " ++ detail

def summary : List Problem → String
  | [p] => p.message
  | ps => toString ps.length ++ " problems in machine definition: "
      ++ Text.join "; " (ps.map message)

end Problem

structure Checked (α : Type u) where
  value : α
  problems : List Problem

namespace Checked

variable {α : Type u} {β : Type u}

def report (p : Problem) : Checked PUnit := ⟨⟨⟩, [p]⟩

def reportIf (b : Bool) (p : Problem) : Checked PUnit := ⟨⟨⟩, if b then [p] else []⟩

def require (o : Option α) (p : Problem) : Checked (Option α) :=
  ⟨o, if o.isNone then [p] else []⟩

instance : Monad Checked where
  pure a := ⟨a, []⟩
  bind x f := ⟨(f x.value).value, x.problems ++ (f x.value).problems⟩

@[simp] theorem pure_value (a : α) : (pure a : Checked α).value = a := rfl

@[simp] theorem pure_problems (a : α) : (pure a : Checked α).problems = [] := rfl

@[simp] theorem bind_value (x : Checked α) (f : α → Checked β) :
    (x >>= f).value = (f x.value).value := rfl

@[simp] theorem bind_problems (x : Checked α) (f : α → Checked β) :
    (x >>= f).problems = x.problems ++ (f x.value).problems := rfl

instance : LawfulMonad Checked := LawfulMonad.mk' Checked
  (fun x => by cases x; simp [Functor.map])
  (fun _ _ => rfl)
  (fun x f g => by simp [bind, List.append_assoc])

end Checked

end Statechart
