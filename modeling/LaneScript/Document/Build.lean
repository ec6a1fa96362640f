import LaneScript.Document.Basic
import LaneScript.Document.Decode

/-!
# From a script to its document

A few blocks have a meaning for the document: `platform`, `lane`, `private_lane` and the hooks
`before_all`, `after_all` and `error` open a place for the statements in them.  A `desc` describes
the next lane.  Every other call without a receiver and without a block is an action, and whatever
else a script says is kept as source text.

The walk over a script gives a list of events, in the order of the source, and the document is what
these events add up to.
-/

namespace LaneScript

/-- What a block opens for the statements in it. -/
inductive Opening where
  | hook (key : LaneKey)
  | lane (name : String) (isPrivate : Bool)
  | platform (name : String)
  deriving DecidableEq, Repr

/-- What the block of a call opens.  A lane or a platform needs a name. -/
def opening? (name : String) (args : List Node) : Option Opening :=
  match name with
  | "before_all" => some (.hook .beforeAll)
  | "after_all" => some (.hook .afterAll)
  | "error" => some (.hook .error)
  | "lane" => (decodeArguments args).content?.map (.lane · false)
  | "private_lane" => (decodeArguments args).content?.map (.lane · true)
  | "platform" => (decodeArguments args).content?.map .platform
  | _ => none

/-- The address of the statements in a block: the other part is kept. -/
def Opening.enter (address : Address) : Opening → Address
  | .hook key => { address with lane := some key }
  | .lane name _ => { address with lane := some (.named name) }
  | .platform name => { address with platform := some name }

/-- A script that another one asks for, and the line on which it does. -/
structure ImportRequest where
  path : String
  line : Nat
  deriving DecidableEq, Repr, Inhabited

/-- What a statement does to the document. -/
inductive Event where
  /-- An action at an address. -/
  | action (address : Address) (action : Action)
  /-- The head of a lane, which takes the descriptions before it. -/
  | head (address : Address) (isPrivate : Bool)
  /-- A description of the next lane. -/
  | description (text : String)
  | request (request : ImportRequest)

/-- The events of a block's opening. -/
def Opening.events (address : Address) (opening : Opening) : List Event :=
  match opening with
  | .lane _ isPrivate => [.head (opening.enter address) isPrivate]
  | _ => []

/-- The path that an `import` asks for. -/
def importPath? (name : String) (parameters : Value) : Option String :=
  match name, parameters with
  | "import", .str path => some path
  | _, _ => none

/-- The events of a call without a receiver and without a block. -/
def callEvents (address : Address) (name : String) (args : List Node) (line : Nat) : List Event :=
  let parameters := decodeArguments args
  if name == "desc" then if parameters.isAbsent then [] else [.description parameters.text]
  else ((importPath? name parameters).map fun path => Event.request ⟨path, line⟩).toList
    ++ [.action address (.call name parameters)]

mutual

/-- The events of a statement; `render` writes what is kept as source text. -/
def Node.events (render : Node → String) (address : Address) : Node → List Event
  | ⟨.call none name args _, line⟩ => callEvents address name args line
  | ⟨.block ⟨.call none name args safe, callLine⟩ params body, line⟩ =>
    match opening? name args with
    | some opening =>
      opening.events address ++ scriptEvents render (opening.enter address) body
    | none =>
      [.action address
        (.code (render ⟨.block ⟨.call none name args safe, callLine⟩ params body, line⟩))]
  | node => [.action address (.code (render node))]

/-- The events of some statements. -/
def scriptEvents (render : Node → String) (address : Address) : List Node → List Event
  | [] => []
  | node :: nodes => node.events render address ++ scriptEvents render address nodes

end

/-- A document that is being built, and the descriptions that wait for a lane. -/
structure Draft where
  document : Document
  pending : List String

/-- What an event does to a draft. -/
def Draft.apply (draft : Draft) : Event → Draft
  | .action address action =>
    { draft with document := draft.document.touch address fun entry =>
        { entry with actions := entry.actions ++ [action] } }
  | .head address isPrivate =>
    ⟨draft.document.touch address fun entry =>
      { entry with description := draft.pending, isPrivate := some isPrivate }, []⟩
  | .description text => { draft with pending := draft.pending ++ [text] }
  | .request _ => draft

/-- The draft of some events. -/
def Draft.ofEvents (events : List Event) : Draft := events.foldl Draft.apply ⟨.empty, []⟩

/-- The scripts that some events ask for. -/
def requestsOf (events : List Event) : List ImportRequest :=
  events.filterMap fun
    | .request request => some request
    | _ => none

/-- What a script comes to: its document and the scripts it asks for. -/
structure Built where
  document : Document
  requests : List ImportRequest
  deriving DecidableEq, Inhabited

/-- The document of a script, with a way to write what is kept as source text. -/
def buildWith (render : Node → String) (script : List Node) : Built :=
  let events := scriptEvents render ⟨none, none⟩ script
  ⟨(Draft.ofEvents events).document, requestsOf events⟩

/-- The document of a script. -/
def build (script : List Node) : Built := buildWith Node.render script

end LaneScript
