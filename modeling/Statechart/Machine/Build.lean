import Statechart.Machine.Link

/-! Building machines. Building either gives a machine or all problems that the definition has. -/

namespace Statechart

def defaultMachineId : String := "machine"

namespace StateBody

def allTransitions (b : StateBody) : List TransitionDef :=
  b.on.entries.flatMap Prod.snd ++ b.always ++ b.after.entries.flatMap Prod.snd ++ b.onDone
    ++ b.invoke.flatMap fun i => i.onDone ++ i.onError

end StateBody

namespace References

def ofBodies (bs : List StateBody) : References where
  guards := .ofList (bs.flatMap fun b => b.allTransitions.filterMap TransitionDef.guard)
  actions := .ofList (bs.flatMap fun b =>
    b.allTransitions.flatMap TransitionDef.actions ++ b.entry ++ b.exit)
  services := .ofList (bs.flatMap fun b => b.invoke.map InvokeDef.src)
  activities := .ofList (bs.flatMap StateBody.activities)
  data := .ofList (bs.filterMap StateBody.data)
  delays := .ofList (bs.flatMap fun b => b.after.keys)

end References

namespace Definition

def naming (d : Definition) : Naming where
  machine := d.root.id.getD defaultMachineId
  delimiter := d.delimiter.getD "."

def placed (d : Definition) : List Placed := d.root.place d.naming rootId [] []

def layout (d : Definition) : Chart := ⟨d.naming.delimiter, d.placed.map Placed.node⟩

end Definition

namespace Chart

def withHistoryDefaults (c : Chart) (defaults : List (List NodeId)) : Chart :=
  { c with nodes := c.nodes.zipWith (fun n d => { n with historyDefault := d }) defaults }

end Chart

namespace Machine

variable {C : Type} [JsonCoded C]

/-- Stands for what the decoder of contexts says, which depends on their type. -/
def contextDetail : String := "the value has not the form of a context"

def checkContext (d : Definition) : Option C → Checked (Option C)
  | some context => pure (some context)
  | none => Checked.require (ofJson? ((d.context.map Value.json).getD .null))
      (.invalidContext contextDetail)

def link (d : Definition) (b : Behaviors C) : Checked (List (Parts C × List NodeId)) :=
  Linker.states ⟨d.layout, b⟩ rootId [] (d.placed.map Placed.body)

def check (d : Definition) (b : Behaviors C) (context : Option C) :
    Checked (Option C × List (Parts C × List NodeId)) := do
  let context ← checkContext d context
  let _ ← (⟨⟨⟩, Layout.problems d.placed⟩ : Checked PUnit)
  return (context, ← link d b)

def assemble (d : Definition) (context : C) (linked : List (Parts C × List NodeId)) :
    Machine C where
  id := d.naming.machine
  version := d.version
  strict := d.strict
  chart := d.layout.withHistoryDefaults (linked.map Prod.snd)
  parts := linked.map Prod.fst
  explicitIds := (d.placed.drop 1).filterMap fun p => p.body.id
  context := context
  references := .ofBodies (d.placed.map Placed.body)

def build (d : Definition) (b : Behaviors C) (context : Option C) :
    Except (List Problem) (Machine C) :=
  match check d b context with
  | ⟨(some context, linked), []⟩ => .ok (assemble d context linked)
  | ⟨_, problems⟩ => .error problems

end Machine

end Statechart
