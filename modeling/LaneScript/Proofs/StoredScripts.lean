import LaneScript.Import.Source
import LaneScript.Proofs.FlatDocument
import LaneScript.Proofs.PathNormal

/-!
# Scripts by their normal paths

A store keeps its scripts by their normal paths, so that every path is as good as its normal form:
the script that is read is the last one that was added under a path with the same normal form, and a
path is known to the store if a script was added there or in the directory that it names.

That this gives one answer for all ways to write a path rests on the normal form: it has no dots and
is its own normal form, and a path that stands behind another may be looked up behind the other's
normal form (`Path.normalize_join`).
-/

namespace LaneScript
namespace ScriptStore

/-- A store that is filled one by one holds a map that is. -/
theorem scripts_ofList (additions : List (Path × String)) :
    (ofList additions).scripts =
      .ofList (additions.map fun script => (script.1.normalize, script.2)) := by
  induction additions using List.reverseRecOn with
  | nil => rfl
  | append_singleton additions script ih =>
    rw [List.map_append, List.map_singleton, OrderedMap.ofList_snoc, ← ih, ofList,
      List.foldl_append]
    rfl

variable (additions : List (Path × String)) (path : Path)

theorem read_eq_ok_iff (text : String) :
    (ofList additions).read path = .ok text ↔
      ∃ before file after, additions = before ++ (file, text) :: after ∧
        file.normalize = path.normalize ∧ ∀ later ∈ after, later.1.normalize ≠ path.normalize := by
  have hread : (ofList additions).read path = .ok text ↔
      (ofList additions).scripts.get? path.normalize = some text := by
    unfold read
    cases (ofList additions).scripts.get? path.normalize <;> simp
  rw [hread, scripts_ofList, ← List.filterMap_eq_map, OrderedMap.get?_ofList_filterMap]
  simp

theorem read_eq_error_iff :
    (ofList additions).read path = .error (.noScript path.normalize) ↔
      ∀ script ∈ additions, script.1.normalize ≠ path.normalize := by
  have hread : (ofList additions).read path = .error (.noScript path.normalize) ↔
      (ofList additions).scripts.get? path.normalize = none := by
    unfold read
    cases (ofList additions).scripts.get? path.normalize <;> simp
  rw [hread, scripts_ofList, OrderedMap.get?_ofList]
  simp only [Option.map_eq_none_iff, List.getLast?_eq_none_iff, List.filter_eq_nil_iff,
    List.forall_mem_map, decide_eq_true_eq]

theorem mem_keys_iff (key : Path) :
    key ∈ (ofList additions).scripts.keys ↔ ∃ script ∈ additions, script.1.normalize = key := by
  rw [scripts_ofList, OrderedMap.keys_ofList]
  simp

theorem canonical_eq_ok_iff (found : Path) :
    (ofList additions).canonical path = .ok found ↔
      (∃ script ∈ additions, path.normalize.components <+: script.1.normalize.components) ∧
        found = path.normalize := by
  have hknown : (ofList additions).scripts.keys.any (·.isInside path.normalize) = true ↔
      ∃ script ∈ additions, path.normalize.components <+: script.1.normalize.components := by
    simp only [List.any_eq_true, mem_keys_iff, Path.isInside, List.isPrefixOf_iff_prefix]
    simp
  unfold canonical
  split
  next h => simp [hknown.1 h, eq_comm]
  next h => simp [← hknown, h]

end ScriptStore

/-- **A store answers by normal paths.**  A normal path has no dots and is its own normal form, and
a path may be normalized before another is put behind it.  A store to which scripts have been added
reads the last one whose path has the normal form that is asked for, and finds no script if there is
none; it knows exactly the normal paths of which the components begin those of some script. -/
theorem store_by_normal_paths :
    (∀ path : Path, path.normalize.normalize = path.normalize ∧
      .current ∉ path.normalize.components ∧ .parent ∉ path.normalize.components) ∧
    (∀ base path : Path, (base.join path).normalize = (base.normalize.join path).normalize) ∧
    ∀ (additions : List (Path × String)) (path : Path),
      (∀ text, (ScriptStore.ofList additions).read path = .ok text ↔
        ∃ before file after, additions = before ++ (file, text) :: after ∧
          file.normalize = path.normalize ∧
          ∀ later ∈ after, later.1.normalize ≠ path.normalize) ∧
      ((ScriptStore.ofList additions).read path = .error (.noScript path.normalize) ↔
        ∀ script ∈ additions, script.1.normalize ≠ path.normalize) ∧
      ∀ found, (ScriptStore.ofList additions).canonical path = .ok found ↔
        (∃ script ∈ additions, path.normalize.components <+: script.1.normalize.components) ∧
          found = path.normalize := by
  refine ⟨fun path => ⟨path.normalize_normalize, path.notMem_components_normalize⟩,
    fun base path => (base.normalize_join path).symm, fun additions path => ⟨?_, ?_, ?_⟩⟩
  · exact ScriptStore.read_eq_ok_iff additions path
  · exact ScriptStore.read_eq_error_iff additions path
  · exact ScriptStore.canonical_eq_ok_iff additions path

end LaneScript
