import LaneScript.Document.Build
import LaneScript.Note

/-!
# Notes on a document

What is noted while the document of a script is built: the places that are entered, the statements
that are kept as source text, and the arguments whose values say less than their expressions.  The
notes follow the order of the walk over the script.
-/

namespace LaneScript

mutual

/-- The notes on the value of a node.  The part that an expression is reduced to comes first. -/
def Node.decodeNotes : Node → List Note
  | ⟨form, line⟩ =>
    if (⟨form, line⟩ : Node).isLiteral then []
    else form.partNotes ++ [.reduced line form.decode]

/-- The notes on the part that a form is reduced to. -/
def Form.partNotes : Form → List Note
  | .call _ _ args _ => lastNotes args
  | .index _ args => lastNotes args
  | .array items => lastNotes items
  | .hash entries _ => lastNotes entries
  | .pair _ value => value.decodeNotes
  | .logical _ _ right => right.decodeNotes
  | .binary _ _ right => right.decodeNotes
  | .ternary _ _ whenFalse => whenFalse.decodeNotes
  | .unary _ operand => operand.decodeNotes
  | .not operand => operand.decodeNotes
  | .splat value => value.decodeNotes
  | .block call _ _ => call.decodeNotes
  | .range _ (some high) _ => high.decodeNotes
  | _ => []

/-- The notes on the value of the last node. -/
def lastNotes : List Node → List Note
  | [] => []
  | [node] => node.decodeNotes
  | _ :: nodes => lastNotes nodes

end

/-- The notes on an entry of a hash that becomes a map. -/
def Node.parameterNotes (node : Node) : List Note :=
  match node.form with
  | .pair key value =>
    match key.form with
    | .sym _ | .str _ => value.decodeNotes
    | form => [.skippedKey node.line form]
  | form => [.skippedEntry node.line form]

/-- The notes on the arguments of an action. -/
def argumentNotes : List Node → List Note
  | [] => []
  | ⟨.hash entries _, _⟩ :: _ => entries.flatMap Node.parameterNotes
  | first :: _ => first.decodeNotes

/-- The notes on a call without a receiver and without a block. -/
def callNotes (name : String) (args : List Node) (line : Nat) : List Note :=
  argumentNotes args
    ++ (if name == "desc" && (decodeArguments args).isAbsent then [.emptyDescription line] else [])

/-- The notes on what a block opens. -/
def Opening.notes (opening : Opening) (args : List Node) (line : Nat) : List Note :=
  match opening with
  | .hook _ => []
  | .lane name isPrivate => argumentNotes args ++ [.entersLane name isPrivate]
  | .platform name => argumentNotes args ++ [.entersPlatform line name]

/-- The notes on a block that opens nothing; a lane or a platform has been asked for its name. -/
def unopenedNotes (name : String) (args : List Node) (line : Nat) : List Note :=
  (if ["lane", "private_lane", "platform"].contains name then argumentNotes args else [])
    ++ [.keptAsCode line]

mutual

/-- The notes on a statement. -/
def Node.notes : Node → List Note
  | ⟨.call none name args _, line⟩ => callNotes name args line
  | ⟨.block ⟨.call none name args _, _⟩ _ body, line⟩ =>
    match opening? name args with
    | some opening => opening.notes args line ++ scriptNotes body
    | none => unopenedNotes name args line
  | ⟨_, line⟩ => [.keptAsCode line]

/-- The notes on some statements. -/
def scriptNotes : List Node → List Note
  | [] => []
  | node :: nodes => node.notes ++ scriptNotes nodes

end

/-- The notes on a script: those on its statements, and one on descriptions without a lane. -/
def buildNotes (script : List Node) : List Note :=
  let pending := (Draft.ofEvents (scriptEvents Node.render ⟨none, none⟩ script)).pending
  scriptNotes script ++ (if pending.isEmpty then [] else [.droppedDescriptions pending.length])

end LaneScript
