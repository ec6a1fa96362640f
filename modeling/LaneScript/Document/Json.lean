import LaneScript.Document.Basic

/-!
# Documents in JSON

A document is written as an object of platforms, each an object of lanes.  An absent name is
written as the empty text.  Two names of one text, such as an absent platform and one whose name is
empty, give two entries of one key; `Document.toMergedJson` leaves one.
-/

namespace LaneScript

/-- An action in JSON. -/
def Action.toJson : Action → Json
  | .call name parameters => .obj [("action", .str name), ("parameters", parameters.toJson)]
  | .code source => .obj [("advancedCode", .str source)]

/-- An entry in JSON. -/
def LaneEntry.toJson (entry : LaneEntry) : Json :=
  .obj ([("description", .ofStrings entry.description),
      ("actions", .arr (entry.actions.map Action.toJson))]
    ++ (entry.isPrivate.map fun isPrivate => ("private", Json.bool isPrivate)).toList)

/-- The lanes of a platform in JSON. -/
def LaneGroup.toJson (group : LaneGroup) : Json :=
  .obj (group.entries.map fun (lane, entry) =>
    ((lane.map LaneKey.text).getD "", entry.toJson))

/-- A document in JSON. -/
def Document.toJson (document : Document) : Json :=
  .obj (document.platforms.entries.map fun (platform, group) =>
    (platform.getD "", LaneGroup.toJson group))

/-- A document in JSON, with one entry for each key. -/
def Document.toMergedJson (document : Document) : Json := document.toJson.merged

end LaneScript
