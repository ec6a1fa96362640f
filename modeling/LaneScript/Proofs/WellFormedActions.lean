import LaneScript.Proofs.DocumentEntries

/-!
# Well-formed actions

An action that is a call is shown by its name, so the name must not be empty, and with its
parameters, in which no map is inside of another.  `Document.IsWellFormed` says this of a whole
document.  Parameters are always flat, since decoding makes them so.  As to the names, it is enough
that every call of the script that becomes an action has one, which is what `Node.IsWellFormed` says
of a statement: of a call without a receiver, and of the statements in a block.  All other
statements are kept as source text.
-/

namespace LaneScript

/-- An action that is a call has a name and flat parameters. -/
def Action.IsWellFormed : Action → Prop
  | .call name parameters => name ≠ "" ∧ parameters.IsFlat
  | .code _ => True

/-- An action that the event adds is well-formed. -/
def Event.IsWellFormed : Event → Prop
  | .action _ done => done.IsWellFormed
  | _ => True

/-- All actions that come of a statement are well-formed, wherever it stands and however source text
is written. -/
def Node.IsWellFormed (node : Node) : Prop :=
  ∀ render address, ∀ event ∈ node.events render address, event.IsWellFormed

/-! ### Statements -/

theorem isWellFormed_scriptEvents {render : Node → String} {body : List Node}
    (h : ∀ node ∈ body, node.IsWellFormed) (address : Address) :
    ∀ event ∈ scriptEvents render address body, event.IsWellFormed := by
  induction body with
  | nil => simp [scriptEvents]
  | cons node nodes ih =>
    rw [List.forall_mem_cons] at h
    intro event hevent
    rw [scriptEvents, List.mem_append] at hevent
    rcases hevent with hevent | hevent
    · exact h.1 render address event hevent
    · exact ih h.2 event hevent

theorem isWellFormed_call {name : String} (hname : name ≠ "") (args : List Node) (safe : Bool)
    (line : Nat) : Node.IsWellFormed ⟨.call none name args safe, line⟩ := by
  intro render address event hevent
  simp only [Node.events, callEvents] at hevent
  split at hevent
  · split at hevent
    · cases hevent
    · rw [List.mem_singleton.1 hevent]
      trivial
  · rcases List.mem_append.1 hevent with hevent | hevent
    · rw [Option.mem_toList, Option.map_eq_some_iff] at hevent
      obtain ⟨path, -, rfl⟩ := hevent
      trivial
    · rw [List.mem_singleton.1 hevent]
      exact ⟨hname, isFlat_decodeArguments args⟩

/-- The statement is neither a call without a receiver nor a block. -/
def Form.isSource : Form → Bool
  | .call none _ _ _ | .block _ _ _ => false
  | _ => true

/-- Source text has neither a name nor parameters. -/
theorem isWellFormed_of_isSource {form : Form} (h : form.isSource = true) (line : Nat) :
    Node.IsWellFormed ⟨form, line⟩ := by
  intro render address event hevent
  have hevents : Node.events render address ⟨form, line⟩ =
      [.action address (.code (render ⟨form, line⟩))] := by
    cases form with
    | call receiver name args safe =>
      cases receiver with
      | none => cases h
      | some receiver => rfl
    | block call params body => cases h
    | _ => rfl
  rw [hevents, List.mem_singleton] at hevent
  rw [hevent]
  trivial

theorem isWellFormed_block {body : List Node} (hbody : ∀ node ∈ body, node.IsWellFormed)
    (call : Node) (params : List Param) (line : Nat) :
    Node.IsWellFormed ⟨.block call params body, line⟩ := by
  intro render address event hevent
  -- only the call of a name opens a lane, a hook or a platform
  by_cases hcall : ∃ name args safe callLine, call = ⟨.call none name args safe, callLine⟩
  · obtain ⟨name, args, safe, callLine, rfl⟩ := hcall
    simp only [Node.events] at hevent
    split at hevent
    next opening _ =>
      rcases List.mem_append.1 hevent with hevent | hevent
      · cases opening with
        | lane name isPrivate =>
          rw [List.mem_singleton.1 hevent]
          trivial
        | hook key => cases hevent
        | platform name => cases hevent
      · exact isWellFormed_scriptEvents hbody _ event hevent
    · rw [List.mem_singleton.1 hevent]
      trivial
  · have hevents : Node.events render address ⟨.block call params body, line⟩ =
        [.action address (.code (render ⟨.block call params body, line⟩))] := by
      rw [Node.events]
      · intro name args safe line h
        cases h
      · intro name args safe callLine params body line h
        cases h
        exact hcall ⟨name, args, safe, callLine, rfl⟩
    rw [hevents, List.mem_singleton] at hevent
    rw [hevent]
    trivial

/-! ### Documents -/

/-- All actions of the document are well-formed. -/
def Document.IsWellFormed (document : Document) : Prop :=
  ∀ key entry, document.get? key = some entry → ∀ action ∈ entry.actions, action.IsWellFormed

theorem isWellFormed_ofEvents {events : List Event} (h : ∀ event ∈ events, event.IsWellFormed) :
    (Draft.ofEvents events).document.IsWellFormed := by
  intro key entry hentry action haction
  have hactions := Draft.actions_ofEvents events key
  rw [hentry, Option.map_some] at hactions
  split at hactions
  · rw [Option.some.inj hactions] at haction
    obtain ⟨event, hevent, hat⟩ := List.mem_filterMap.1 haction
    cases event with
    | action address done =>
      rw [Event.actionAt] at hat
      split at hat
      · cases hat
        exact h _ hevent
      · cases hat
    | head | description | request => cases hat
  · cases hactions

/-- The actions of a script are well-formed if its statements are. -/
theorem isWellFormed_build {script : List Node} (h : ∀ node ∈ script, node.IsWellFormed) :
    (build script).document.IsWellFormed :=
  isWellFormed_ofEvents (isWellFormed_scriptEvents h _)

end LaneScript
