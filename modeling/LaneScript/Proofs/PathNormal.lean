import LaneScript.Import.Path
import Mathlib.Data.List.Basic
import Mathlib.Data.List.Induction

/-!
# Paths without dots

`Path.normalize` writes a list of components as a path.  What comes out has the components that were
written, so that a normal path is known by its components, and normalizing it again changes nothing.

* `Path.components_normalize` — the components of a normal path are those that its dots leave over.
* `Path.normalize_normalize` — a normal path is its own normal form.
* `Path.normalize_join` — a path may be normalized before another is put behind it.
* `Path.same_normalize_iff` — two normal paths with the same components are written alike.

The components of a normal path are `Settled`: a root can only stand first, and all else are names.
Such a list is written from left to right, each name behind a slash, and the lemma that carries the
induction is `components_join_name`: a name put behind a path is one further component of it.
-/

namespace LaneScript

open List
namespace Path

/-! ### Texts between slashes -/

/-- The text between two slashes is a name of its own: it is no dot and no two dots. -/
structure IsPlainPart (part : List Char) : Prop where
  ne_nil : part ≠ []
  ne_dot : part ≠ ['.']
  ne_dots : part ≠ ['.', '.']
  no_slash : '/' ∉ part

theorem component?_of_isPlainPart {part : List Char} (h : IsPlainPart part) :
    component? part = some (.name (String.ofList part)) := by
  have hnil : part.isEmpty = false := isEmpty_eq_false_iff.2 h.ne_nil
  have hdot : (part == ['.']) = false := beq_eq_false_iff_ne.2 h.ne_dot
  have hdots : (part == ['.', '.']) = false := beq_eq_false_iff_ne.2 h.ne_dots
  simp [component?, hnil, hdot, hdots]

theorem splitAfter_append_slash (part before behind : List Char) :
    splitAfter part (before ++ '/' :: behind) = splitAfter part before ++ splitAfter [] behind := by
  induction before generalizing part with
  | nil => simp [splitAfter]
  | cons c before ih =>
    by_cases hc : c = '/'
    · simp [splitAfter, hc, ih]
    · have hc' : (c == '/') = false := beq_eq_false_iff_ne.2 hc
      simp [splitAfter, hc', ih]

theorem splitAfter_of_no_slash {text : List Char} (h : '/' ∉ text) (part : List Char) :
    splitAfter part text = [part.reverse ++ text] := by
  induction text generalizing part with
  | nil => simp [splitAfter]
  | cons c text ih =>
    have hc : (c == '/') = false := by
      refine beq_eq_false_iff_ne.2 fun hc => h ?_
      rw [hc]
      exact mem_cons_self
    have htext : '/' ∉ text := fun hmem => h (mem_cons_of_mem c hmem)
    rw [splitAfter, hc]
    simpa using ih htext (c :: part)

theorem splitAfter_ne_nil (part text : List Char) : splitAfter part text ≠ [] := by
  induction text generalizing part with
  | nil => simp [splitAfter]
  | cons c text ih =>
    rw [splitAfter]
    split
    · simp
    · exact ih _

/-- No text between slashes has a slash in it. -/
theorem no_slash_of_mem_splitAfter {part text found : List Char} (hpart : '/' ∉ part)
    (h : found ∈ splitAfter part text) : '/' ∉ found := by
  induction text generalizing part with
  | nil =>
    rw [splitAfter, mem_singleton] at h
    rw [h, mem_reverse]
    exact hpart
  | cons c text ih =>
    rw [splitAfter] at h
    split at h
    · rcases mem_cons.1 h with h | h
      · rw [h, mem_reverse]
        exact hpart
      · exact ih not_mem_nil h
    · next hc =>
      refine ih ?_ h
      rintro (_ | ⟨_, hmem⟩)
      · exact hc (beq_self_eq_true '/')
      · exact hpart hmem

/-! ### Components -/

/-- The component that stands before the first text between slashes. -/
def lead (text : List Char) : List Component :=
  if text.head? == some '/' then [.root]
  else if (splitAfter [] text).head? == some ['.'] then [.current] else []

theorem components_eq (path : Path) :
    path.components = lead path.text.toList ++
      (splitAfter [] path.text.toList).filterMap component? := rfl

/-- What stands behind the first slash does not change what stands before it. -/
theorem lead_append_slash {text : List Char} (hne : text ≠ []) (behind : List Char) :
    lead (text ++ '/' :: behind) = lead text := by
  have hhead : (text ++ '/' :: behind).head? = text.head? := head?_append_of_ne_nil _ hne
  have hparts : (splitAfter [] (text ++ '/' :: behind)).head? = (splitAfter [] text).head? := by
    rw [splitAfter_append_slash, head?_append_of_ne_nil _ (splitAfter_ne_nil [] text)]
  rw [lead, lead, hhead, hparts]

/-- Behind a path that is not empty, the components of a relative one are further components; a dot
at its start is none.  Whether a slash has to be put between the two makes no difference. -/
theorem components_join {base path : Path} (hbase : base.text ≠ "")
    (hpath : path.isAbsolute = false) :
    (base.join path).components =
      base.components ++ (splitAfter [] path.text.toList).filterMap component? := by
  have hne : base.text.toList ≠ [] := by simpa using hbase
  have hnot : base.text.isEmpty = false := by simpa using hbase
  rw [join, hpath]
  simp only [Bool.false_eq_true, if_false]
  by_cases hslash : base.text.toList.getLast? = some '/'
  · -- the slash is there: the empty text behind it was no component, and the path takes its place
    obtain ⟨before, hbefore⟩ := getLast?_eq_some_iff.1 hslash
    have hwith : (base.text ++ path.text).toList = before ++ '/' :: path.text.toList := by
      rw [String.toList_append, hbefore]
      simp
    have hlead : lead (before ++ '/' :: path.text.toList) = lead (before ++ ['/']) := by
      cases before with
      | nil => simp [lead]
      | cons c before =>
        rw [lead_append_slash (cons_ne_nil c before),
          lead_append_slash (cons_ne_nil c before)]
    have hlast : (splitAfter [] []).filterMap component? = [] := rfl
    simp only [hnot, hslash, beq_self_eq_true, Bool.or_true, if_true, components_eq, hwith]
    rw [hbefore, hlead, splitAfter_append_slash, splitAfter_append_slash, filterMap_append,
      filterMap_append, hlast]
    simp
  · have hsep : (base.text ++ "/" ++ path.text).toList =
        base.text.toList ++ '/' :: path.text.toList := by
      simp
    have hlast : (base.text.toList.getLast? == some '/') = false := beq_eq_false_iff_ne.2 hslash
    simp only [hnot, hlast, Bool.or_self, Bool.false_eq_true, if_false, components_eq, hsep]
    rw [lead_append_slash hne, splitAfter_append_slash, filterMap_append]
    simp

/-- Behind the empty path a relative one stands alone. -/
theorem join_empty {base path : Path} (hbase : base.text = "") (hpath : path.isAbsolute = false) :
    base.join path = path ∧ base.components = [] := by
  obtain ⟨text⟩ := base
  cases hbase
  simp [join, hpath, components_eq, lead, splitAfter, component?]

/-- **A name behind a path is one further component.** -/
theorem components_join_name (base : Path) {name : String} (h : IsPlainPart name.toList) :
    (base.join ⟨name⟩).components = base.components ++ [.name name] := by
  have hname : (splitAfter [] name.toList).filterMap component? = [.name name] := by
    rw [splitAfter_of_no_slash h.no_slash]
    simp [component?_of_isPlainPart h]
  have habs : Path.isAbsolute ⟨name⟩ = false := by
    refine beq_eq_false_iff_ne.2 fun hhead => h.no_slash ?_
    exact mem_of_mem_head? hhead
  -- an empty path is left out, any other one gets a slash
  by_cases hempty : base.text = ""
  · have hlead : lead name.toList = [] := by
      have hhead : (name.toList.head? == some '/') = false := habs
      have hpart : ((splitAfter [] name.toList).head? == some ['.']) = false := by
        rw [splitAfter_of_no_slash h.no_slash]
        simpa using h.ne_dot
      simp [lead, hhead, hpart]
    obtain ⟨hjoin, hbase⟩ := join_empty hempty habs
    rw [hjoin, hbase, components_eq, hlead, hname, nil_append]
  · rw [components_join hempty habs, hname]

end Path

/-! ### Settled components -/

/-- The component is a name. -/
def Component.IsPlain : Component → Prop
  | .name text => Path.IsPlainPart text.toList
  | _ => False

namespace Path

/-- A root can only stand first, and all else are names. -/
def Settled : List Component → Prop
  | [] => True
  | first :: others => (first = .root ∨ first.IsPlain) ∧ ∀ component ∈ others, component.IsPlain

theorem settled_concat {components : List Component} {component : Component}
    (h : Settled components) (hc : component.IsPlain) : Settled (components ++ [component]) := by
  cases components with
  | nil => exact ⟨.inr hc, by simp⟩
  | cons first others =>
    refine ⟨h.1, fun found hfound => ?_⟩
    rcases mem_append.1 hfound with hfound | hfound
    · exact h.2 found hfound
    · rw [mem_singleton.1 hfound]
      exact hc

theorem settled_of_concat {components : List Component} {component : Component}
    (h : Settled (components ++ [component])) : Settled components := by
  cases components with
  | nil => trivial
  | cons first others =>
    exact ⟨h.1, fun found hfound => h.2 found (mem_append_left _ hfound)⟩

/-- The last of some settled components is a name, unless it is a root and the only one. -/
theorem last_of_settled {components : List Component} {component : Component}
    (h : Settled (components ++ [component])) :
    (components = [] ∧ component = .root) ∨ component.IsPlain := by
  cases components with
  | nil =>
    rcases h.1 with h | h
    · exact .inl ⟨rfl, h⟩
    · exact .inr h
  | cons first others => exact .inr (h.2 component (mem_append_right _ mem_cons_self))

theorem settle_of_isPlain {component : Component} (h : component.IsPlain)
    (before : List Component) : settle before component = before ++ [component] := by
  cases component with
  | name text => rfl
  | root => exact h.elim
  | current => exact h.elim
  | parent => exact h.elim

/-- A component between two slashes: a name or two dots. -/
theorem isPlain_or_parent {part : List Char} {component : Component} (hpart : '/' ∉ part)
    (h : component? part = some component) : component.IsPlain ∨ component = .parent := by
  unfold component? at h
  split at h
  · cases h
  · next hnot =>
    split at h
    · exact .inr (Option.some.inj h).symm
    · next hdots =>
      simp only [Bool.or_eq_true, List.isEmpty_iff, beq_iff_eq, not_or] at hnot
      rw [← Option.some.inj h]
      exact .inl ⟨by simpa using hnot.1, by simpa using hnot.2, by simpa using hdots,
        by simpa using hpart⟩

theorem settled_settle {before : List Component} {component : Component} (h : Settled before)
    (hc : component.IsPlain ∨ component = .parent) : Settled (settle before component) := by
  rcases hc with hc | rfl
  · rw [settle_of_isPlain hc]
    exact settled_concat h hc
  · show Settled before.dropLast
    induction before using reverseRecOn with
    | nil => exact h
    | append_singleton before last _ =>
      rw [dropLast_concat]
      exact settled_of_concat h

theorem settled_foldl {components before : List Component} (h : Settled before)
    (hall : ∀ component ∈ components, component.IsPlain ∨ component = .parent) :
    Settled (components.foldl settle before) := by
  induction components generalizing before with
  | nil => exact h
  | cons component components ih =>
    refine ih (settled_settle h (hall component mem_cons_self)) fun found hfound => ?_
    exact hall found (mem_cons_of_mem component hfound)

/-- What the dots of a path leave over is settled. -/
theorem settled_components (path : Path) : Settled (path.components.foldl settle []) := by
  have hparts : ∀ component ∈ (splitAfter [] path.text.toList).filterMap component?,
      component.IsPlain ∨ component = .parent := by
    intro component hc
    obtain ⟨part, hpart, hcomponent⟩ := mem_filterMap.1 hc
    exact isPlain_or_parent (no_slash_of_mem_splitAfter not_mem_nil hpart) hcomponent
  rw [components_eq, foldl_append]
  refine settled_foldl ?_ hparts
  -- the component before the first text is a root, a dot or nothing
  unfold lead
  split
  · exact ⟨.inl rfl, by simp⟩
  · split <;> trivial

/-- Settled components have nothing for a dot to take away. -/
theorem foldl_settle_of_settled {components : List Component} (h : Settled components) :
    components.foldl settle [] = components := by
  induction components using reverseRecOn with
  | nil => rfl
  | append_singleton components last ih =>
    rw [foldl_concat, ih (settled_of_concat h)]
    rcases last_of_settled h with ⟨rfl, rfl⟩ | hlast
    · rfl
    · exact settle_of_isPlain hlast components

/-! ### Normal paths -/

/-- **Settled components are written so that they are read again.** -/
theorem components_ofComponents {components : List Component} (h : Settled components) :
    (ofComponents components).components = components := by
  induction components using reverseRecOn with
  | nil => rfl
  | append_singleton components last ih =>
    have hsnoc : ofComponents (components ++ [last]) =
        (ofComponents components).join ⟨last.text⟩ := by
      rw [ofComponents, foldl_concat]
      rfl
    rw [hsnoc]
    -- the last component is a root that stands alone, or a plain name
    rcases last_of_settled h with ⟨rfl, rfl⟩ | hlast
    · rfl
    · cases last with
      | name text =>
        have hjoin := components_join_name (ofComponents components) hlast
        rw [ih (settled_of_concat h)] at hjoin
        exact hjoin
      | root => exact hlast.elim
      | current => exact hlast.elim
      | parent => exact hlast.elim

/-- The components of a normal path are those that its dots leave over. -/
theorem components_normalize (path : Path) :
    path.normalize.components = path.components.foldl settle [] :=
  components_ofComponents (settled_components path)

/-- A normal path is what its components are written as. -/
theorem ofComponents_normalize (path : Path) :
    ofComponents path.normalize.components = path.normalize := by
  rw [components_normalize]
  rfl

/-- **A normal path is its own normal form.** -/
@[simp] theorem normalize_normalize (path : Path) : path.normalize.normalize = path.normalize := by
  have hsettled : path.normalize.components.foldl settle [] = path.normalize.components := by
    rw [components_normalize]
    exact foldl_settle_of_settled (settled_components path)
  calc path.normalize.normalize
      = ofComponents (path.normalize.components.foldl settle []) := rfl
    _ = ofComponents path.normalize.components := by rw [hsettled]
    _ = path.normalize := ofComponents_normalize path

/-- What the dots leave over of a joined path can be found in two steps. -/
theorem foldl_settle_join (base : Path) {path : Path} (hpath : path.isAbsolute = false) :
    (base.join path).components.foldl settle [] =
      ((splitAfter [] path.text.toList).filterMap component?).foldl settle
        (base.components.foldl settle []) := by
  by_cases hempty : base.text = ""
  · obtain ⟨hjoin, hbase⟩ := join_empty hempty hpath
    have hhead : (path.text.toList.head? == some '/') = false := hpath
    rw [hjoin, hbase, components_eq, foldl_append, lead, hhead]
    -- a dot at the start settles to nothing
    simp only [Bool.false_eq_true, if_false]
    split <;> rfl
  · rw [components_join hempty hpath, foldl_append]

/-- **A path may be normalized before another is put behind it.** -/
theorem normalize_join (base path : Path) :
    (base.normalize.join path).normalize = (base.join path).normalize := by
  cases hpath : path.isAbsolute with
  | true => rw [join, join, hpath, if_pos rfl, if_pos rfl]
  | false =>
    have hsettled :
        base.normalize.components.foldl settle [] = base.components.foldl settle [] := by
      rw [components_normalize]
      exact foldl_settle_of_settled (settled_components base)
    unfold normalize at hsettled ⊢
    rw [foldl_settle_join _ hpath, foldl_settle_join _ hpath, hsettled]

/-- A normal path has no dots. -/
theorem notMem_components_normalize (path : Path) :
    .current ∉ path.normalize.components ∧ .parent ∉ path.normalize.components := by
  -- settled components are the root and plain names
  have hplain : ∀ {component : Component} {components : List Component}, Settled components →
      component ∈ components → component = .root ∨ component.IsPlain := by
    intro component components h hmem
    cases components with
    | nil => cases hmem
    | cons first others =>
      rcases mem_cons.1 hmem with rfl | hmem
      · exact h.1
      · exact .inr (h.2 component hmem)
  rw [components_normalize]
  have hsettled := settled_components path
  refine ⟨fun h => ?_, fun h => ?_⟩
  · exact (hplain hsettled h).elim Component.noConfusion id
  · exact (hplain hsettled h).elim Component.noConfusion id

/-- **Two normal paths are the same only when they are written alike.** -/
theorem same_normalize_iff (path other : Path) :
    path.normalize.same other.normalize = true ↔ path.normalize = other.normalize := by
  constructor
  · intro h
    have hcomponents : path.normalize.components = other.normalize.components := beq_iff_eq.1 h
    rw [← ofComponents_normalize path, hcomponents, ofComponents_normalize other]
  · intro h
    rw [h]
    exact beq_self_eq_true _

end Path
end LaneScript
