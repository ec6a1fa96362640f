import LaneScript.Proofs.DisciplinedRules

/-!
# Local variables are bound where they are used

A name is read as a local variable where the stack of scopes shows it, and it is put on the stack
where something binds it.  The rules account for both, so that at the end the names on the stack are
those that the tree binds: every variable that a script uses has a binding occurrence in its own
scope or in one around it that is not cut off by a definition, `scoped_of_parseText`.
-/

namespace LaneScript

/-- The name has a binding occurrence in the script, outside of the scopes in it. -/
def bindsAtTop (script : List Node) (name : String) : Prop := ∃ node ∈ script, node.Binds name

/-- What is read from tokens is scoped. -/
theorem scoped_of_parse {file : String} {tokens : List Located} {script : List Node}
    (h : parse file tokens = .ok script) : ∀ node ∈ script, node.Scoped (bindsAtTop script) := by
  obtain ⟨-, scopes, haccounts⟩ := accounts_of_parse h
  intro node hnode
  refine (haccounts.isScoped.nodes node hnode).mono fun name hname => ?_
  -- the outermost scope shows nothing at the start
  rcases hname with (hname | hname) | hseen
  · cases hname
  · exact hname
  · simp [Scope.sees, Scope.empty] at hseen

/-- **Every variable is bound.**  In the tree of a script that can be read, each use of a local
variable has a binding occurrence in its own scope or in a scope around it, with no definition of a
method, a class or a module between the two. -/
theorem scoped_of_parseText (file source : String) (script : List Node)
    (h : parseText file source = .ok script) :
    ∀ node ∈ script, node.Scoped (bindsAtTop script) := by
  rw [parseText] at h
  cases hlex : lex file source with
  | error failure =>
    rw [hlex] at h
    cases h
  | ok tokens =>
    rw [hlex] at h
    exact scoped_of_parse h

/-- A block that uses a variable from around it, and behind the block the name of its parameter. -/
def sharedVariable : String :=
  "\n".intercalate ["x = 1", "each do |y|", "log x, y, \"#\x7bz = x\x7d\", z", "end", "y"]

/-- The tree of the script: the last `y` is a call. -/
def sharedVariableTree : List Node :=
  [⟨.assign ⟨.localVar "x", 1⟩ ⟨.int 1, 1⟩, 1⟩,
    ⟨.block ⟨.call none "each" [] false, 2⟩ [.required "y"]
      [⟨.call none "log" [⟨.localVar "x", 3⟩, ⟨.localVar "y", 3⟩,
        ⟨.template .double [.code [⟨.assign ⟨.localVar "z", 3⟩ ⟨.localVar "x", 3⟩, 3⟩]], 3⟩,
        ⟨.localVar "z", 3⟩] false, 3⟩], 2⟩,
    ⟨.call none "y" [] false, 5⟩]

theorem scoped_of_parseText_sharedVariable :
    ∃ script, parseText "Fastfile" sharedVariable = .ok script ∧
      sameNodes script sharedVariableTree = true ∧
      ∀ node ∈ script, node.Scoped (bindsAtTop script) := by
  have hsame : (parseText "Fastfile" sharedVariable).toOption.map
      (sameNodes · sharedVariableTree) = some true := by
    decide +kernel
  cases hparse : parseText "Fastfile" sharedVariable with
  | error failure =>
    rw [hparse] at hsame
    cases hsame
  | ok script =>
    rw [hparse] at hsame
    exact ⟨script, rfl, Option.some.inj hsame, scoped_of_parseText _ _ script hparse⟩

end LaneScript
