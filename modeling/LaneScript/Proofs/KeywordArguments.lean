import LaneScript.Document.Decode
import LaneScript.Proofs.FlatDocument

/-!
# Keyword arguments

The parameters of an action are a map exactly if its first argument is a hash.  An entry of the hash
counts if it is a pair whose key is a symbol or a string, `IsParameter`; a key keeps the place
where it came first and has the value that came last, whatever stands between.

No value of the map is a map: a hash inside of the hash is reduced like any other expression, and
whatever an expression is reduced to, it is a single value (`Node.isScalar_decode`).
-/

namespace LaneScript

/-- An entry of a hash that gives the value to the key: a pair whose key is a symbol or a string. -/
inductive IsParameter (key : String) (value : Node) : Node → Prop where
  | sym (keyLine line : Nat) : IsParameter key value ⟨.pair ⟨.sym key, keyLine⟩ value, line⟩
  | str (keyLine line : Nat) : IsParameter key value ⟨.pair ⟨.str key, keyLine⟩ value, line⟩

namespace Node

/-- The text of a symbol or a string that is the key of a pair. -/
def literalKey? : Node → Option String
  | ⟨.pair ⟨.sym key, _⟩ _, _⟩ | ⟨.pair ⟨.str key, _⟩ _, _⟩ => some key
  | _ => none

theorem map_fst_parameter? (entry : Node) : entry.parameter?.map Prod.fst = entry.literalKey? := by
  unfold parameter?
  split
  · rfl
  · rfl
  next hsym hstr => rw [literalKey?, Option.map_none] <;> assumption

theorem parameter?_eq_some_iff {entry : Node} {key : String} {found : Value} :
    entry.parameter? = some (key, found) ↔
      ∃ value, IsParameter key value entry ∧ value.decode = found := by
  constructor
  · intro h
    unfold parameter? at h
    split at h
    · cases h
      exact ⟨_, .sym _ _, rfl⟩
    · cases h
      exact ⟨_, .str _ _, rfl⟩
    · cases h
  · rintro ⟨value, hentry, rfl⟩
    cases hentry with
    | sym => rfl
    | str => rfl

end Node

theorem decodeArguments_eq_map_iff (args : List Node) :
    (∃ found, decodeArguments args = .map found) ↔
      ∃ entries braced line others, args = ⟨.hash entries braced, line⟩ :: others := by
  constructor
  · rintro ⟨found, h⟩
    unfold decodeArguments at h
    split at h
    · cases h
    · exact ⟨_, _, _, _, rfl⟩
    -- what is no hash is reduced to a single value
    next first _ _ =>
      have hscalar := first.isScalar_decode
      rw [h] at hscalar
      cases hscalar
  · rintro ⟨entries, braced, line, others, rfl⟩
    exact ⟨_, rfl⟩

/-- **Keyword arguments become a flat map.**  Its keys are those of the pairs with a symbol or a
string as their key, each once and where it comes first, with the decoded value of the last such
pair.  Only a hash as the first argument becomes a map, and no map is inside of another. -/
theorem keyword_arguments :
    (∀ (entries : List Node) (braced : Bool) (line : Nat) (others : List Node),
      ∃ found : OrderedMap String Value,
        decodeArguments (⟨.hash entries braced, line⟩ :: others) = .map found.entries ∧
        found.keys = (entries.filterMap Node.literalKey?).eraseDups ∧
        ∀ key value, found.get? key = some value ↔
          ∃ before entry after node, entries = before ++ entry :: after ∧
            IsParameter key node entry ∧ node.decode = value ∧
            ∀ later ∈ after, later.literalKey? ≠ some key) ∧
    (∀ args, (∃ found, decodeArguments args = .map found) ↔
      ∃ entries braced line others, args = ⟨.hash entries braced, line⟩ :: others) ∧
    ∀ args found, decodeArguments args = .map found →
      ∀ entry ∈ found, ∀ inner, entry.2 ≠ .map inner := by
  refine ⟨fun entries braced line others => ⟨_, rfl, ?_, fun key value => ?_⟩,
    decodeArguments_eq_map_iff, fun args found h entry hentry inner hinner => ?_⟩
  · rw [OrderedMap.keys_ofList, List.map_filterMap]
    simp only [Node.map_fst_parameter?]
  · simp only [OrderedMap.get?_ofList_filterMap, Node.parameter?_eq_some_iff,
      Node.map_fst_parameter?]
    constructor
    · rintro ⟨before, entry, after, hentries, ⟨node, hentry, hvalue⟩, hafter⟩
      exact ⟨before, entry, after, node, hentries, hentry, hvalue, hafter⟩
    · rintro ⟨before, entry, after, node, hentries, hentry, hvalue, hafter⟩
      exact ⟨before, entry, after, hentries, ⟨node, hentry, hvalue⟩, hafter⟩
  -- the values of the entries are decoded, and no decoded value is a map
  · have hflat := isFlat_decodeArguments args
    rw [h] at hflat
    have hscalar := hflat entry hentry
    rw [hinner] at hscalar
    cases hscalar

/-- `a: 1, b: nil, "a" => [2, 3], x => 4, **y, c: { d: 5 }` -/
def mixedEntries : List Node :=
  [⟨.pair ⟨.sym "a", 1⟩ ⟨.int 1, 1⟩, 1⟩, ⟨.pair ⟨.sym "b", 1⟩ ⟨.atom .nilValue, 1⟩, 1⟩,
    ⟨.pair ⟨.str "a", 1⟩ ⟨.array [⟨.int 2, 1⟩, ⟨.int 3, 1⟩], 1⟩, 1⟩,
    ⟨.pair ⟨.localVar "x", 1⟩ ⟨.int 4, 1⟩, 1⟩, ⟨.doubleSplat ⟨.localVar "y", 1⟩, 1⟩,
    ⟨.pair ⟨.sym "c", 1⟩ ⟨.hash [⟨.pair ⟨.sym "d", 1⟩ ⟨.int 5, 1⟩, 1⟩] true, 1⟩, 1⟩]

theorem keyword_arguments_mixed :
    ∃ found : OrderedMap String Value,
      decodeArguments [⟨.hash mixedEntries false, 1⟩] = .map found.entries ∧
      found.keys = ["a", "b", "c"] ∧ found.get? "a" = some (.int 3) ∧
      ∀ entry ∈ found.entries, ∀ inner, entry.2 ≠ .map inner := by
  obtain ⟨hmap, -, hflat⟩ := keyword_arguments
  obtain ⟨found, hfound, hkeys, hvalues⟩ := hmap mixedEntries false 1 []
  refine ⟨found, hfound, hkeys.trans (by decide +kernel), (hvalues _ _).2 ?_,
    hflat _ _ hfound⟩
  refine ⟨mixedEntries.take 2, _, mixedEntries.drop 3, _, rfl, .str 1 1, rfl, ?_⟩
  simp [mixedEntries, Node.literalKey?]

end LaneScript
