import LaneScript.Import.Load
import LaneScript.Proofs.DisciplinedRules

/-!
# The form of a document in JSON

A document in JSON has a fixed form, which a schema describes: an object of platforms, each an
object of lanes, each with its descriptions, its actions and perhaps its privacy.  `Schema` is the
part of the schema language that this takes, `Schema.accepts` decides whether a value has the form,
and `Schema.document` is the form itself.

* `document_conforms` — whatever script is read, its document in JSON has the form.

Most of the form is there by construction: a document is a nested map.  That keys are distinct is
what merging is for.  What an action has goes back to the script, by `Document.IsWellFormed`: the
calls of a script are named after words and constants, which are never empty, and no map is inside
of another, whatever expressions the arguments of a call are.
-/

namespace LaneScript

open List

/-! ### Schemas -/

/-- The kinds of JSON values that a schema tells apart. -/
inductive JsonKind where
  | null | boolean | number | string | array | object
  deriving DecidableEq

/-- The kind of a value as it is written.  An infinite number is written as null. -/
def Json.kind : Json → JsonKind
  | .null | .float (.infinite _) => .null
  | .bool _ => .boolean
  | .int _ | .float _ => .number
  | .str _ => .string
  | .arr _ => .array
  | .obj _ => .object

/-- A form of JSON values. -/
inductive Schema where
  /-- Any value of one of the kinds. -/
  | kinds (allowed : List JsonKind)
  /-- A string of at least the given length. -/
  | text (minLength : Nat)
  | array (items : Schema)
  /-- An object that has all required keys.  A key that is no property has to meet `others`; without
  it there is no such key. -/
  | object (required : List String) (properties : List (String × Schema)) (others : Option Schema)
  /-- Exactly one of the alternatives. -/
  | oneOf (alternatives : List Schema)

namespace Schema

mutual

/-- The value has the form.  The keys of an object are distinct. -/
def accepts : Schema → Json → Bool
  | .kinds allowed, json => allowed.contains json.kind
  | .text minLength, .str content => minLength ≤ content.length
  | .array items, .arr values => values.all fun value => items.accepts value
  | .object required properties others, .obj entries =>
    decide (entries.map Prod.fst).Nodup
      && required.all (fun key => (entries.map Prod.fst).contains key)
      && entries.all fun entry =>
        (acceptsProperty properties entry.1 entry.2).getD (acceptsOther others entry.2)
  | .oneOf alternatives, json => accepting alternatives json == 1
  | _, _ => false

/-- The value has the form of the property with the key, if there is one. -/
def acceptsProperty : List (String × Schema) → String → Json → Option Bool
  | [], _, _ => none
  | (name, schema) :: properties, key, value =>
    if name == key then some (schema.accepts value) else acceptsProperty properties key value

/-- The value has the form of all other keys. -/
def acceptsOther : Option Schema → Json → Bool
  | none, _ => false
  | some schema, value => schema.accepts value

/-- How many of the forms the value has. -/
def accepting : List Schema → Json → Nat
  | [], _ => 0
  | schema :: schemas, json => (if schema.accepts json then 1 else 0) + accepting schemas json

end

/-- An object whose values all have one form. -/
def mapOf (schema : Schema) : Schema := .object [] [] (some schema)

/-- A single value. -/
def scalar : Schema := .kinds [.null, .boolean, .number, .string]

/-- The parameters of an action. -/
def value : Schema := .oneOf [scalar, mapOf scalar]

/-- An action: a call with its name and its parameters, or source text. -/
def action : Schema :=
  .oneOf
    [.object ["action", "parameters"] [("action", .text 1), ("parameters", value)] none,
      .object ["advancedCode"] [("advancedCode", .kinds [.string])] none]

/-- What is known of one lane. -/
def laneEntry : Schema :=
  .object ["description", "actions"]
    [("description", .array (.kinds [.string])), ("actions", .array action),
      ("private", .kinds [.boolean])] none

/-- A document: platforms, and in each of them lanes. -/
def document : Schema := mapOf (mapOf laneEntry)

end Schema

/-! ### Maps and merging -/

/-- A map has the value that stands in its entries. -/
theorem OrderedMap.get?_of_mem {α β : Type} [DecidableEq α] {m : OrderedMap α β} {key : α}
    {value : β} (h : (key, value) ∈ m.entries) : m.get? key = some value := by
  obtain ⟨entries, nodup⟩ := m
  change entries.lookup key = some value
  induction entries with
  | nil => cases h
  | cons first others ih =>
    obtain ⟨k, v⟩ := first
    rw [map_cons, nodup_cons] at nodup
    rcases mem_cons.1 h with h | h
    · cases h
      exact lookup_cons_self
    · have hne : key ≠ k := fun heq =>
        nodup.1 (mem_map.2 ⟨_, ‹(key, value) ∈ others›, heq⟩)
      rw [lookup_cons, beq_false_of_ne hne]
      exact ih nodup.2 h

theorem Value.entriesToJson_eq_map (entries : List (String × Value)) :
    Value.entriesToJson entries = entries.map fun entry => (entry.1, entry.2.toJson) := by
  induction entries with
  | nil => rfl
  | cons entry others ih => rw [Value.entriesToJson, ih, map_cons]

/-- A value that is no single one is a map. -/
theorem Value.exists_map {value : Value} (h : value.isScalar = false) :
    ∃ entries, value = .map entries := by
  cases value with
  | map entries => exact ⟨entries, rfl⟩
  | _ => cases h

theorem Json.mergedEntries_eq_map (entries : List (String × Json)) :
    Json.mergedEntries entries = entries.map fun entry => (entry.1, entry.2.merged) := by
  induction entries with
  | nil => rfl
  | cons entry others ih => rw [Json.mergedEntries, ih, map_cons]

theorem Json.mergedItems_eq_map (items : List Json) :
    Json.mergedItems items = items.map Json.merged := by
  induction items with
  | nil => rfl
  | cons item others ih => rw [Json.mergedItems, ih, map_cons]

namespace Schema

theorem accepts_object (required : List String) (properties : List (String × Schema))
    (others : Option Schema) (entries : List (String × Json)) :
    (Schema.object required properties others).accepts (.obj entries) =
      (decide (entries.map Prod.fst).Nodup
        && required.all (fun key => (entries.map Prod.fst).contains key)
        && entries.all fun entry =>
          (acceptsProperty properties entry.1 entry.2).getD (acceptsOther others entry.2)) := by
  rw [accepts]

/-! ### What has a form once it is merged -/

/-- Merging leaves no key twice, and no value that was not there. -/
theorem accepts_merged_mapOf {schema : Schema} {entries : List (String × Json)}
    (h : ∀ entry ∈ entries, schema.accepts entry.2.merged = true) :
    (mapOf schema).accepts (Json.obj entries).merged = true := by
  simp only [Json.merged, mapOf, accepts_object, acceptsProperty, acceptsOther, Option.getD_none,
    all_nil, Bool.and_true, Bool.and_eq_true, decide_eq_true_eq, all_eq_true]
  refine ⟨(OrderedMap.ofList _).nodup, fun entry hentry => ?_⟩
  have hmem := OrderedMap.mem_ofList hentry
  rw [Json.mergedEntries_eq_map] at hmem
  obtain ⟨source, hsource, rfl⟩ := mem_map.1 hmem
  exact h source hsource

theorem accepts_merged_array {schema : Schema} {items : List Json}
    (h : ∀ item ∈ items, schema.accepts item.merged = true) :
    (Schema.array schema).accepts (Json.arr items).merged = true := by
  rw [Json.merged, Json.mergedItems_eq_map, accepts, all_map, all_eq_true]
  exact h

/-! ### Documents -/

theorem accepts_scalar {single : Value} (h : single.isScalar = true) :
    scalar.accepts single.toJson.merged = true := by
  cases single with
  | map entries => cases h
  | float number => cases number <;> rfl
  | _ => rfl

theorem mapOf_rejects_scalar (schema : Schema) {single : Value} (h : single.isScalar = true) :
    (mapOf schema).accepts single.toJson.merged = false := by
  cases single with
  | map entries => cases h
  | _ => simp [Value.toJson, Json.merged, mapOf, accepts]

/-- Flat parameters are one scalar or a map of scalars, and never both. -/
theorem accepts_value {parameters : Value} (h : parameters.IsFlat) :
    value.accepts parameters.toJson.merged = true := by
  cases hscalar : parameters.isScalar with
  | true =>
    simp only [value, accepts, accepting, accepts_scalar hscalar, mapOf_rejects_scalar _ hscalar]
    rfl
  | false =>
    obtain ⟨entries, rfl⟩ := Value.exists_map hscalar
    have hmap : (mapOf scalar).accepts (Value.map entries).toJson.merged = true := by
      rw [Value.toJson]
      refine accepts_merged_mapOf fun entry hentry => ?_
      rw [Value.entriesToJson_eq_map] at hentry
      obtain ⟨source, hsource, rfl⟩ := mem_map.1 hentry
      exact accepts_scalar (h source hsource)
    have hobject : scalar.accepts (Value.map entries).toJson.merged = false := rfl
    simp only [value, accepts, accepting, hmap, hobject]
    rfl

theorem accepts_action {done : Action} (h : done.IsWellFormed) :
    action.accepts done.toJson.merged = true := by
  cases done with
  | call name parameters =>
    have hmerged : (Action.call name parameters).toJson.merged =
        .obj [("action", .str name), ("parameters", parameters.toJson.merged)] := rfl
    have hname : 1 ≤ name.length := Nat.one_le_iff_ne_zero.2 (mt String.length_eq_zero_iff.1 h.1)
    rw [hmerged]
    simp [action, accepts, accepting, acceptsProperty, acceptsOther, accepts_value h.2, hname]
  | code source =>
    have hmerged : (Action.code source).toJson.merged =
        .obj [("advancedCode", .str source)] := rfl
    rw [hmerged]
    simp [action, accepts, accepting, acceptsProperty, acceptsOther, Json.kind]

theorem accepts_laneEntry {entry : LaneEntry} (h : ∀ done ∈ entry.actions, done.IsWellFormed) :
    laneEntry.accepts entry.toJson.merged = true := by
  have hdescription : (Schema.array (.kinds [.string])).accepts
      (Json.ofStrings entry.description).merged = true := by
    refine accepts_merged_array fun item hitem => ?_
    obtain ⟨line, -, rfl⟩ := mem_map.1 hitem
    rfl
  have hactions : (Schema.array action).accepts
      (Json.arr (entry.actions.map Action.toJson)).merged = true := by
    refine accepts_merged_array fun item hitem => ?_
    obtain ⟨done, hdone, rfl⟩ := mem_map.1 hitem
    exact accepts_action (h done hdone)
  cases hprivate : entry.isPrivate with
  | none =>
    have hmerged : entry.toJson.merged =
        .obj [("description", (Json.ofStrings entry.description).merged),
          ("actions", (Json.arr (entry.actions.map Action.toJson)).merged)] := by
      rw [LaneEntry.toJson, hprivate]
      rfl
    rw [hmerged]
    simp [laneEntry, accepts_object, acceptsProperty, hdescription, hactions]
  | some isPrivate =>
    have hmerged : entry.toJson.merged =
        .obj [("description", (Json.ofStrings entry.description).merged),
          ("actions", (Json.arr (entry.actions.map Action.toJson)).merged),
          ("private", .bool isPrivate)] := by
      rw [LaneEntry.toJson, hprivate]
      rfl
    have hbool : (Schema.kinds [.boolean]).accepts (.bool isPrivate) = true := rfl
    rw [hmerged]
    simp [laneEntry, accepts_object, acceptsProperty, hdescription, hactions, hbool]

-- An entry without its actions has not the form.
example : laneEntry.accepts (.obj [("description", .arr [])]) = false := by decide

theorem accepts_document {done : Document} (h : done.IsWellFormed) :
    document.accepts done.toMergedJson = true := by
  refine accepts_merged_mapOf fun platformEntry hplatform => ?_
  obtain ⟨⟨platform, group⟩, hgroup, rfl⟩ := mem_map.1 hplatform
  refine accepts_merged_mapOf fun laneEntry hlane => ?_
  obtain ⟨⟨lane, entry⟩, hentry, rfl⟩ := mem_map.1 hlane
  refine accepts_laneEntry (h ⟨platform, lane⟩ entry ?_)
  rw [Document.get?, OrderedMap.get?_of_mem hgroup]
  exact OrderedMap.get?_of_mem hentry

end Schema

/-- The actions of a script that can be read are well-formed. -/
theorem isWellFormed_parseDocument {name text : String} {document : Document}
    (h : parseDocument name text = .ok document) : document.IsWellFormed := by
  rw [parseDocument] at h
  split at h
  next script hscript =>
    cases h
    have hbalanced := balances_parseText name text
    rw [hscript] at hbalanced
    exact isWellFormed_build fun node hnode => (hbalanced node hnode).wellFormed trivial
  · cases h

/-- Whatever script is read, its document in JSON has the form of documents. -/
theorem document_conforms (name text : String) (document : Document)
    (h : parseDocument name text = .ok document) :
    Schema.document.accepts document.toMergedJson = true :=
  Schema.accepts_document (isWellFormed_parseDocument h)

/-- A script with a private lane, of which the actions have named values, one value and no name, and
with two platforms of one key. -/
def mixedScript : String :=
  "\n".intercalate ["build", "platform :ios do", "desc 'Ships'", "private_lane :beta do",
    "match(type: 'x', n: 1.5)", "scan 3", "a = 1", "end", "end", "platform '' do", "test", "end"]

theorem document_conforms_mixedScript :
    ∃ document, parseDocument "Lanes" mixedScript = .ok document ∧
      document.toJson.compact ≠ document.toMergedJson.compact ∧
      Schema.document.accepts document.toMergedJson = true := by
  have hforms : (parseDocument "Lanes" mixedScript).toOption.map
      (fun document => decide (document.toJson.compact ≠ document.toMergedJson.compact)) =
      some true := by
    decide +kernel
  cases hparse : parseDocument "Lanes" mixedScript with
  | error error =>
    rw [hparse] at hforms
    cases hforms
  | ok document =>
    rw [hparse] at hforms
    exact ⟨document, rfl, of_decide_eq_true (Option.some.inj hforms),
      document_conforms _ _ document hparse⟩

end LaneScript
