import LaneScript.Import.Load

/-!
# Runs of a loader

A loader that asks a provider without effects of its own is a function: from a journal it comes to a
result and a journal, and the journal is there also beside an error.  `Loader.exec` is this
function, and the lemmas here say what it is for a sequence of loaders and for the small ones.  What
is loaded is then followed step by step by rewriting, and a run that ended well is taken apart with
`exec_bind_eq_ok`.
-/

namespace LaneScript

/-- The path of the script that all begins with. -/
def ScriptInput.origin? : ScriptInput → Option Path
  | .path file => some file
  | .content _ _ => none

namespace Loader

variable {α β : Type}

/-- Runs a loader on a journal. -/
def exec (loader : Loader Id α) (journal : Journal) : Except ScriptError α × Journal :=
  (loader.run).run journal

/-- In a sequence the second loader goes on from the journal of the first; an error ends it. -/
theorem exec_bind (loader : Loader Id α) (next : α → Loader Id β) (journal : Journal) :
    exec (loader >>= next) journal =
      match exec loader journal with
      | (.ok value, journal') => exec (next value) journal'
      | (.error error, journal') => (.error error, journal') := by
  rcases h : exec loader journal with ⟨error | value, journal'⟩
  · unfold exec at h ⊢
    simp only [ExceptT.run_bind, StateT.run_bind, h]
    rfl
  · unfold exec at h ⊢
    simp only [ExceptT.run_bind, StateT.run_bind, h]
    rfl

/-- A sequence that ends well has two parts that do. -/
theorem exec_bind_eq_ok {loader : Loader Id α} {next : α → Loader Id β} {journal after : Journal}
    {result : β} :
    exec (loader >>= next) journal = (.ok result, after) ↔
      ∃ value journal', exec loader journal = (.ok value, journal') ∧
        exec (next value) journal' = (.ok result, after) := by
  rw [exec_bind]
  rcases exec loader journal with ⟨error | value, journal'⟩
  · constructor
    · intro h
      cases h
    · rintro ⟨value, journal'', h, -⟩
      cases h
  · constructor
    · intro h
      exact ⟨value, journal', rfl, h⟩
    · rintro ⟨value', journal'', h, hnext⟩
      cases h
      exact hnext

/-! Each small loader at the head of a sequence. -/

@[simp] theorem exec_get_bind (next : Journal → Loader Id β) (journal : Journal) :
    exec (get >>= next) journal = exec (next journal) journal := rfl

@[simp] theorem exec_modify_bind (change : Journal → Journal) (next : PUnit → Loader Id β)
    (journal : Journal) :
    exec (modify change >>= next) journal = exec (next ()) (change journal) := rfl

@[simp] theorem exec_note_bind (notes : List Note) (next : Unit → Loader Id β)
    (journal : Journal) :
    exec (note notes >>= next) journal =
      exec (next ()) { journal with notes := journal.notes ++ notes } := rfl

/-- What goes on after a question to a provider goes on with its answer. -/
theorem exec_ask_bind_eq_ok {error : SourceFault → ScriptError} {answer : Except SourceFault α}
    {next : α → Loader Id β} {journal after : Journal} {result : β} :
    exec (ask (m := Id) error answer >>= next) journal = (.ok result, after) ↔
      ∃ value, answer = .ok value ∧ exec (next value) journal = (.ok result, after) := by
  cases answer with
  | error fault =>
    constructor
    · intro h
      cases h
    · rintro ⟨value, h, -⟩
      cases h
  | ok value =>
    constructor
    · intro h
      exact ⟨value, rfl, h⟩
    · rintro ⟨value', h, hnext⟩
      cases h
      exact hnext

/-- What goes on after a text is built goes on with what its script builds. -/
theorem exec_buildText_bind_eq_ok {name text : String} {next : Built → Loader Id β}
    {journal after : Journal} {result : β} :
    exec (buildText name text >>= next) journal = (.ok result, after) ↔
      ∃ script, parseText name text = .ok script ∧
        exec (next (build script)) { journal with
          notes := journal.notes ++ Note.statements name script.length :: buildNotes script } =
            (.ok result, after) := by
  unfold buildText
  cases parseText name text with
  | error failure =>
    constructor
    · intro h
      cases h
    · rintro ⟨script, h, -⟩
      cases h
  | ok script =>
    constructor
    · intro h
      exact ⟨script, rfl, h⟩
    · rintro ⟨script', h, hnext⟩
      cases h
      exact hnext

end Loader
end LaneScript
