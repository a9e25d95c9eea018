import Statechart.Definition.Basic

/-! When two definitions declare the same: field by field, and up to the order of fields in metadata
and context. -/

namespace Statechart

universe u

def sameOption {α : Type u} (same : α → α → Bool) : Option α → Option α → Bool
  | none, none => true
  | some a, some b => same a b
  | _, _ => false

def sameList {α : Type u} (same : α → α → Bool) : List α → List α → Bool
  | [], [] => true
  | a :: as, b :: bs => same a b && sameList same as bs
  | _, _ => false

namespace TransitionDef

def same (a b : TransitionDef) : Bool :=
  a.target == b.target && a.guard == b.guard && a.inState == b.inState && a.actions == b.actions
    && a.internal == b.internal && sameOption Value.same a.metadata b.metadata

def sameKeyed (a b : String × List TransitionDef) : Bool := a.1 == b.1 && sameList same a.2 b.2

end TransitionDef

def InvokeDef.same (a b : InvokeDef) : Bool :=
  a.id == b.id && a.src == b.src && sameList TransitionDef.same a.onDone b.onDone
    && sameList TransitionDef.same a.onError b.onError

def StateBody.same (a b : StateBody) : Bool :=
  a.id == b.id && a.type == b.type && a.initial == b.initial && a.history == b.history
    && a.target == b.target && sameList TransitionDef.sameKeyed a.on.entries b.on.entries
    && sameList TransitionDef.same a.always b.always
    && sameList TransitionDef.sameKeyed a.after.entries b.after.entries
    && sameList TransitionDef.same a.onDone b.onDone && a.entry == b.entry && a.exit == b.exit
    && sameList InvokeDef.same a.invoke b.invoke && a.activities == b.activities
    && a.data == b.data && sameOption Value.same a.metadata b.metadata

namespace StateDef

mutual

def same : StateDef → StateDef → Bool
  | ⟨a, as⟩, ⟨b, bs⟩ => a.same b && sameAll as bs

def sameAll : List (String × StateDef) → List (String × StateDef) → Bool
  | [], [] => true
  | (k, a) :: as, (l, b) :: bs => k == l && same a b && sameAll as bs
  | _, _ => false

end

end StateDef

def Definition.same (a b : Definition) : Bool :=
  a.version == b.version && a.delimiter == b.delimiter && a.strict == b.strict
    && sameOption Value.same a.context b.context && a.root.same b.root

end Statechart
