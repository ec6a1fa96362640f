import LaneScript.Import.Load
import LaneScript.Proofs.FrontEndProgress
import LaneScript.Proofs.TreeLines

/-!
# The lines and the name of a text do not matter

A text may start on any line of some larger text, as the code in a string does, and its failures
carry the name of its file, down to those of the code in its strings.  Neither shows in what is
found.  The tokens and the tree of a text that starts some lines later are the same with their lines
moved, down to the code in strings, which is read from the line that its token remembers.  So are
the scripts it asks for and the place of a failure, and the document, which has no lines, does not
change at all.

The two readings are compared token by token in `RulesInStep`; here it remains to take them from the
tokens to the document.
-/

namespace LaneScript

open LaneScript.Parser

/-! ### Trees -/

/-- Tokens in another place have the same statements, as many lines further down. -/
theorem parse_moved (m : Move) (file : String) {tokens : List Located} (hends : EndsOnce tokens) :
    parse m.file (tokens.map (·.mapLines m.line)) =
      mapResult m (mapLinesAll m.line) (parse file tokens) := by
  -- both are read with the same bound, since there is as much to read on other lines
  obtain ⟨hrun, -⟩ := outcome_program_start (readersInStep_readAt m (Nat.le_refl _)) hends
    (Nat.le_succ (tokensWeight tokens)) file [.empty true] 0
  rw [parse, parse, tokensWeight_mapLines, Parser.run', Parser.run', Parser.run, Parser.run, hrun]
  cases (Rule.program (readAt (tokensWeight tokens + 1))).outcome
      (.start file tokens [.empty true] 0) <;> rfl

theorem parseFrom_moved (m : Move) (file : String) (line : Nat) (source : String) :
    parseFrom m.file (m.line line) source =
      mapResult m (mapLinesAll m.line) (parseFrom file line source) := by
  unfold parseFrom
  rw [lexFrom_moved m file]
  cases htokens : lexFrom file line source with
  | error failure => rfl
  | ok tokens => exact parse_moved m file (endsOnce_lexFrom htokens)

/-! ### Documents and requests -/

/-- The scripts that are asked for, with the lines changed; the document has none. -/
def Built.mapLines (f : Nat → Nat) (built : Built) : Built :=
  { built with requests := built.requests.map fun asked => { asked with line := f asked.line } }

theorem requestsOf_mapLines (f : Nat → Nat) (events : List Event) :
    requestsOf (events.map (Event.mapLines f)) =
      (requestsOf events).map fun asked => { asked with line := f asked.line } := by
  unfold requestsOf
  rw [List.filterMap_map, List.map_filterMap]
  congr 1
  funext event
  cases event <;> rfl

theorem build_mapLines (f : Nat → Nat) (script : List Node) :
    build (mapLinesAll f script) = (build script).mapLines f := by
  have hrequests : (build (mapLinesAll f script)).requests =
      (build script).requests.map fun asked => { asked with line := f asked.line } := by
    change requestsOf (scriptEvents Node.render ⟨none, none⟩ (mapLinesAll f script)) = _
    rw [scriptEvents_mapLines, requestsOf_mapLines]
    rfl
  unfold Built.mapLines
  rw [← document_build_mapLines f script, ← hrequests]

/-! ### From the text to the document -/

/-- What a text of the file comes to that starts on the given line. -/
def buildFrom (file : String) (line : Nat) (source : String) : Except ScriptError Built :=
  match parseFrom file line source with
  | .ok script => .ok (build script)
  | .error failure => .error (.malformed failure)

/-- What a text comes to in two files, when it starts so many lines later in the second: the same
document and requests, or a syntax error in either file, with the lines moved. -/
inductive ComesToSame (file file' : String) (k : Nat) :
    Except ScriptError Built → Except ScriptError Built → Prop where
  | built (built : Built) : ComesToSame file file' k (.ok built) (.ok (built.mapLines (· + k)))
  | malformed (line : Nat) (fault : Fault) :
      ComesToSame file file' k (.error (.malformed ⟨file, line, fault⟩))
        (.error (.malformed ⟨file', line + k, fault.mapLines (· + k)⟩))

/-- A failure is one of the file that is read. -/
theorem file_of_parseFrom {file source : String} {line : Nat} {failure : Failure}
    (h : parseFrom file line source = .error failure) : failure.file = file := by
  -- the failure is its own image when nothing moves, and the image is in the file
  have hmoved := parseFrom_moved ⟨file, 0⟩ file line source
  rw [Move.line, Nat.add_zero, h] at hmoved
  exact congrArg Failure.file (Except.error.inj hmoved)

theorem buildFrom_moved (file file' : String) (k line : Nat) (source : String) :
    ComesToSame file file' k (buildFrom file line source) (buildFrom file' (line + k) source) := by
  unfold buildFrom
  rw [parseFrom_moved ⟨file', k⟩ file]
  cases hparse : parseFrom file line source with
  | error failure =>
    obtain ⟨_, line, fault⟩ := failure
    obtain rfl := file_of_parseFrom hparse
    exact .malformed line fault
  | ok script =>
    change ComesToSame file file' k (.ok (build script))
      (.ok (build (mapLinesAll (· + k) script)))
    rw [build_mapLines]
    exact .built (build script)

/-- What a text comes to does not depend on the name of its file. -/
theorem buildFrom_rename {file source : String} {line : Nat} {built : Built}
    (h : buildFrom file line source = .ok built) (file' : String) :
    buildFrom file' line source = .ok built := by
  have hsame := buildFrom_moved file file' 0 line source
  rw [h, Nat.add_zero] at hsame
  generalize buildFrom file' line source = outcome at hsame
  cases hsame
  -- no request is on another line
  simp [Built.mapLines]

theorem buildFrom_of_parseText {file source : String} {script : List Node}
    (h : parseText file source = .ok script) (file' : String) :
    buildFrom file' 1 source = .ok (build script) := by
  have hparse : parseFrom file 1 source = .ok script := h
  have hbuild : buildFrom file 1 source = .ok (build script) := by
    rw [buildFrom, hparse]
  exact buildFrom_rename hbuild file'

theorem parseDocument_eq (file source : String) :
    parseDocument file source = (buildFrom file 1 source).map (·.document) := by
  have hparse : parseText file source = parseFrom file 1 source := rfl
  unfold parseDocument buildFrom
  rw [hparse]
  cases parseFrom file 1 source <;> rfl

/-- A text that starts some lines later, in another file, has the same tokens, tree, document and
requests with the lines moved, or the same failure there.  The document of a script is the one of
its text from line one. -/
theorem same_from_later_line (file file' : String) (line k : Nat) (source : String) :
    lexFrom file' (line + k) source =
        mapResult ⟨file', k⟩ (List.map (·.mapLines (· + k))) (lexFrom file line source) ∧
      parseFrom file' (line + k) source =
        mapResult ⟨file', k⟩ (mapLinesAll (· + k)) (parseFrom file line source) ∧
      ComesToSame file file' k (buildFrom file line source) (buildFrom file' (line + k) source) ∧
      parseDocument file source = (buildFrom file 1 source).map (·.document) :=
  ⟨lexFrom_moved ⟨file', k⟩ file line source, parseFrom_moved ⟨file', k⟩ file line source,
    buildFrom_moved file file' k line source, parseDocument_eq file source⟩

end LaneScript
