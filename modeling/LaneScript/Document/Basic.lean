import LaneScript.Document.Value

/-!
# Documents

A document is what a script declares: platforms, in each of them lanes and hooks, and in each of
these the actions that run, in order.  Actions outside of all lanes, and lanes outside of all
platforms, stand under an absent name.

Everything keeps the order in which the script first touches it.
-/

namespace LaneScript

/-- The name of a lane, or a hook that runs around the lanes. -/
inductive LaneKey where
  | named (name : String)
  | beforeAll
  | afterAll
  | error
  deriving DecidableEq, Repr, Inhabited

/-- The text that stands for a lane or a hook. -/
def LaneKey.text : LaneKey → String
  | .named name => name
  | .beforeAll => "_before_all_block_"
  | .afterAll => "_after_all_block_"
  | .error => "_error_block_"

/-- Where an action stands: its platform and its lane, each of which may be absent. -/
structure Address where
  platform : Option String
  lane : Option LaneKey
  deriving DecidableEq, Repr, Inhabited

/-- The parts of the address that have a text, with a blank between them. -/
def Address.label (address : Address) : String :=
  " ".intercalate
    ((address.platform.toList ++ (address.lane.map LaneKey.text).toList).filter (!·.isEmpty))

/-- One thing that a lane does. -/
inductive Action where
  /-- A call with its decoded parameters. -/
  | call (name : String) (parameters : Value)
  /-- Source text of what is no plain call. -/
  | code (source : String)
  deriving DecidableEq, Inhabited

/-- What is known of one lane. -/
structure LaneEntry where
  description : List String := []
  actions : List Action := []
  /-- Whether the lane is private; hooks and the place outside of all lanes are neither. -/
  isPrivate : Option Bool := none
  deriving DecidableEq, Inhabited

/-- The lanes of one platform. -/
abbrev LaneGroup := OrderedMap (Option LaneKey) LaneEntry

/-- The platforms of a script and their lanes. -/
structure Document where
  platforms : OrderedMap (Option String) LaneGroup
  deriving DecidableEq, Inhabited

namespace Document

/-- The document that declares nothing. -/
def empty : Document := ⟨.empty⟩

/-- Changes the entry of an address, which is created if there is none. -/
def touch (document : Document) (address : Address) (change : LaneEntry → LaneEntry) : Document :=
  ⟨document.platforms.update address.platform fun group =>
    (group.getD .empty).update address.lane fun entry => change (entry.getD {})⟩

/-- The entry of an address. -/
def get? (document : Document) (address : Address) : Option LaneEntry := do
  (← document.platforms.get? address.platform).get? address.lane

/-- The entry of a lane by its name. -/
def lane? (document : Document) (platform : Option String) (name : String) : Option LaneEntry :=
  document.get? ⟨platform, some (.named name)⟩

/-- The document declares nothing. -/
def isEmpty (document : Document) : Bool := document.platforms.isEmpty

/-- All entries with their addresses, in order. -/
def entries (document : Document) : List (Address × LaneEntry) :=
  document.platforms.entries.flatMap fun (platform, group) =>
    group.entries.map fun (lane, entry) => (⟨platform, lane⟩, entry)

/-- The entries by their labels.  The entry outside of everything, whose label is empty, can be left
out. -/
def flatten (document : Document) (ignoreTopLevel : Bool) : OrderedMap String LaneEntry :=
  .ofList ((document.entries.map fun (address, entry) => (address.label, entry)).filter
    fun (label, _) => !(ignoreTopLevel && label.isEmpty))

/-- The labels of all entries but the one outside of everything. -/
def lanes (document : Document) : List String :=
  (document.entries.map fun (address, _) => address.label).filter (!·.isEmpty)

/-- The entry of an address changes, and no other. -/
theorem get?_touch (document : Document) (address a : Address) (change : LaneEntry → LaneEntry) :
    (document.touch address change).get? a =
      if a = address then some (change ((document.get? address).getD {})) else document.get? a := by
  obtain ⟨platform, lane⟩ := a
  obtain ⟨platform', lane'⟩ := address
  simp only [touch, get?, OrderedMap.get?_update, Address.mk.injEq]
  by_cases hp : platform = platform'
  · subst hp
    cases hg : document.platforms.get? platform with
    | none => by_cases hl : lane = lane' <;> simp [OrderedMap.get?_update, hl]
    | some group => by_cases hl : lane = lane' <;> simp [OrderedMap.get?_update, hl]
  · simp [hp]

end Document
end LaneScript
