import LaneScript.Proofs.DisciplinedRules
import LaneScript.Proofs.RoundTrip

/-!
# The limit of the nesting

The elements of arrays and the values of hashes are nested in one another up to a limit, and a text
where they are nested deeper is no script (`nests_le_of_parseText`).  A statement that assigns to
several targets has one level more: its values are read at the depth of the statement.  Arrays in
arrays reach the limit (`parseText_arrayTower`).

The limit is one of elements and values only.  The keys of a hash in braces are read at the depth of
the hash, and so is the value of a splat, and no level is counted for them: hashes that are keys of
one another are a script however deep they are nested (`parseText_keyTower`).
-/

namespace LaneScript

open LaneScript.Parser

/-! ### Scripts are within the limit -/

/-- **The nesting has a limit.**  In a script the elements of arrays and the values of hashes are
nested no deeper than the limit, but for one level more in a multiple assignment. -/
theorem nests_le_of_parseText {file source : String} {script : List Node}
    (h : parseText file source = .ok script) {node : Node} (hnode : node ∈ script) {k : Nat}
    (hk : node.Nests Node.elements k) :
    k ≤ maxNesting ∨ k = maxNesting + 1 ∧ node.AssignsSeveral := by
  rw [parseText] at h
  cases hlex : lex file source with
  | error failure =>
    rw [hlex] at h
    cases h
  | ok tokens =>
    rw [hlex] at h
    obtain ⟨hstatements, scopes, haccounts⟩ := accounts_of_parse h
    have hstatement := hstatements node hnode
    -- only a multiple assignment is held against the depth of the statement itself
    rcases hstatement.room with hroom | hassigns
    · have hle := hroom hstatement.lt k hk
      exact .inl (by omega)
    · have hle := (haccounts.fits.nodes node hnode).room (Nat.zero_le _) k hk
      by_cases hlimit : k ≤ maxNesting
      · exact .inl hlimit
      · exact .inr ⟨by omega, hassigns⟩

/-! ### Towers of collections -/

/-- A collection that can be written and read again, with so many levels below its own. -/
structure IsTower (levels : Nat) (node : Node) : Prop where
  collection : node.form.isCollection = true
  fragment : InFragment .none .value node
  starts : StartsWith Token.opensBase (node.spelled 0)
  reads : ReadsBy Rule.primary Token.closesValue levels node (node.spelled 0)

section Towers

variable {levels : Nat} {node found : Node}

theorem isTower_nil (line : Nat) : IsTower 0 ⟨.array [], line⟩ where
  collection := rfl
  fragment := .array line (by simp)
  starts := ⟨.lbracket, [⟨.tight, .rbracket⟩], rfl, by simp, fun _ => rfl⟩
  reads := readsBy_array (by simp) (by simp) line

namespace IsTower

theorem mono (h : IsTower levels node) {levels' : Nat} (hlevels : levels ≤ levels') :
    IsTower levels' node :=
  ⟨h.collection, h.fragment, h.starts, h.reads.mono hlevels⟩

variable (h : IsTower levels node)
include h

theorem ternary : ReadsBy Rule.ternary Token.closesExpression levels node (node.spelled 0) :=
  ((h.reads.unary h.starts.value.expression).signed h.starts.unsigned).ternary
    h.starts.value.expression

theorem isKeywordEntry_eq_false : node.isKeywordEntry = false := by
  obtain ⟨form, line⟩ := node
  have hform : form.isCollection = true := h.collection
  cases form with
  | pair key value => cases hform
  | doubleSplat value => cases hform
  | _ => rfl

theorem form_ne_sym (name : String) : node.form ≠ .sym name := by
  intro hform
  have hcollection := h.collection
  rw [hform] at hcollection
  cases hcollection

theorem labelKey?_eq_none : node.labelKey? = none := by
  unfold Node.labelKey?
  split
  case h_1 name hform => exact absurd hform (h.form_ne_sym name)
  case h_2 => rfl

/-- An element takes a level. -/
theorem array (line : Nat) : IsTower (levels + 1) ⟨.array [node], line⟩ := by
  have hitem : ∀ item ∈ [node], IsItem (· .argument) 0 (levels + 1) item := by
    refine List.forall_mem_singleton.2 ⟨?_, ?_⟩
    · exact h.starts.value.expression.mono fun _ => Token.opensItem_of_opensExpression
    · exact (h.ternary.expression.argumentValue h.starts.value.expression).argument
        h.starts.value.expression
  exact ⟨rfl, .array line (List.forall_mem_singleton.2 h.fragment),
    ⟨_, _, rfl, noTargets_spelledList hitem .tight (by simp), fun _ => rfl⟩,
    readsBy_array hitem (List.forall_mem_singleton.2 h.isKeywordEntry_eq_false) line⟩

/-- A key takes none: there has to be room for the value beside it, and no more. -/
theorem hashKey (hlevels : 0 < levels) (valueLine pairLine line : Nat) :
    IsTower levels ⟨.hash [⟨.pair node ⟨.int 1, valueLine⟩, pairLine⟩] true, line⟩ := by
  have hvalue : IsValue 0 ⟨.int 1, valueLine⟩ := isValue_int 1 valueLine
  have hentry : ∀ entry ∈ [Node.mk (.pair node ⟨.int 1, valueLine⟩) pairLine],
      IsItem Rule.entry 0 levels entry := by
    refine List.forall_mem_singleton.2 ⟨?_, ?_⟩ <;> rw [spelled_mapped h.labelKey?_eq_none]
    · exact (h.starts.value.expression.mono
        fun _ => Token.opensItem_of_opensExpression).append (by simp)
    · exact ReadsBy.mappedEntry (hvalue.argumentValue.mono hlevels) hvalue.starts.expression
        h.ternary h.starts.value.expression pairLine
  have hpair : InFragment .none .entry ⟨.pair node ⟨.int 1, valueLine⟩, pairLine⟩ :=
    .pair pairLine (fun name hform => absurd hform (h.form_ne_sym name)) h.fragment
      (.int valueLine (by decide))
  exact ⟨rfl, .hash line (List.forall_mem_singleton.2 hpair),
    ⟨_, _, rfl, noTargets_spelledList hentry .blank (by simp), fun _ => rfl⟩,
    readsBy_hash hentry line⟩

/-- The text of a tower is a script, if there is a level for the tower itself. -/
theorem parseText_renderScript (file : String) (hlevels : levels < maxNesting) :
    ∃ found, parseText file (renderScript [node]) = .ok [found] ∧ found.bare = node.bare := by
  have hstatement : IsStatement (levels + 1) node (node.spelled 0) :=
    ⟨h.starts.value.expression, h.ternary.expression.statement h.starts.value.expression⟩
  obtain ⟨line, hlex⟩ := lex_renderScript (List.forall_mem_singleton.2 (.statement h.fragment))
  obtain ⟨script, hparse, hscript⟩ :=
    parse_statements file hlevels (List.forall_mem_singleton.2 hstatement) line
  obtain ⟨found, rfl, hfound⟩ := eq_singleton_of_bareAll hscript
  refine ⟨found, ?_, hfound⟩
  rw [parseText, hlex]
  exact hparse

end IsTower

/-! ### What is read of a tower -/

theorem isCollection_bare (node : Node) : node.bare.form.isCollection = node.form.isCollection := by
  obtain ⟨form, line⟩ := node
  cases form with
  | hash entries braced => cases braced <;> rfl
  | _ => rfl

/-- A collection is an element as it stands. -/
theorem values_of_isCollection (h : node.form.isCollection = true) : node.values = [node] := by
  obtain ⟨form, line⟩ := node
  cases form with
  | array items => rfl
  | hash entries braced =>
    cases braced with
    | false => cases h
    | true => rfl
  | _ => cases h

theorem exists_array_of_bare {items : List Node} {line : Nat}
    (h : found.bare = Node.bare ⟨.array items, line⟩) :
    ∃ items' line', found = ⟨.array items', line'⟩ ∧ bareAll items' = bareAll items := by
  obtain ⟨form, line'⟩ := found
  have hform := congrArg Node.form h
  cases form with
  | array items' => exact ⟨items', line', rfl, Form.array.inj hform⟩
  | _ => cases hform

theorem exists_hash_of_bare {entries : List Node} {braced : Bool} {line : Nat}
    (h : found.bare = Node.bare ⟨.hash entries braced, line⟩) :
    ∃ entries' line', found = ⟨.hash entries' braced, line'⟩ ∧
      bareAll entries' = bareAll entries := by
  obtain ⟨form, line'⟩ := found
  have hform := congrArg Node.form h
  cases form with
  | hash entries' braced' =>
    obtain ⟨hentries, rfl⟩ := Form.hash.inj hform
    exact ⟨entries', line', rfl, hentries⟩
  | _ => cases hform

theorem exists_pair_of_bare {key value : Node} {line : Nat}
    (h : found.bare = Node.bare ⟨.pair key value, line⟩) :
    ∃ key' value' line', found = ⟨.pair key' value', line'⟩ ∧ key'.bare = key.bare := by
  obtain ⟨form, line'⟩ := found
  have hform := congrArg Node.form h
  cases form with
  | pair key' value' => exact ⟨key', value', line', rfl, (Form.pair.inj hform).1⟩
  | _ => cases hform

end Towers

/-! ### Arrays in arrays -/

/-- An empty array, with so many arrays around it. -/
def arrayTower : Nat → Node
  | 0 => ⟨.array [], 1⟩
  | n + 1 => ⟨.array [arrayTower n], 1⟩

theorem isTower_arrayTower (n : Nat) : IsTower n (arrayTower n) := by
  induction n with
  | zero => exact isTower_nil 1
  | succ n ih => exact ih.array 1

theorem nests_of_bare_arrayTower {n : Nat} {found : Node} (h : found.bare = (arrayTower n).bare) :
    found.Nests Node.elements (n + 1) := by
  induction n generalizing found with
  | zero =>
    obtain ⟨items, line, rfl, -⟩ := exists_array_of_bare h
    exact .last rfl
  | succ n ih =>
    obtain ⟨items, line, rfl, hitems⟩ := exists_array_of_bare h
    -- the one element is read as the tower below it
    obtain ⟨only, rfl, honly⟩ := eq_singleton_of_bareAll hitems
    have honly' : only.form.isCollection = true := by
      rw [← isCollection_bare, honly, isCollection_bare]
      exact (isTower_arrayTower n).collection
    have hmem : only ∈ Node.elements ⟨.array [only], line⟩ := by
      show only ∈ only.values ++ []
      rw [values_of_isCollection honly']
      exact List.mem_singleton_self only
    exact .through rfl hmem (ih honly)

/-- Arrays nested in one another are a script up to the limit. -/
theorem parseText_arrayTower (file : String) {n : Nat} (hn : n < maxNesting) :
    ∃ node, parseText file (renderScript [arrayTower n]) = .ok [node] ∧
      node.Nests Node.elements (n + 1) := by
  obtain ⟨node, hparse, hnode⟩ := (isTower_arrayTower n).parseText_renderScript file hn
  exact ⟨node, hparse, nests_of_bare_arrayTower hnode⟩

/-- Sixty-four arrays are a script, and no more levels are nested in it than these. -/
theorem nests_le_arrayTower :
    ∃ node, parseText "Fastfile" (renderScript [arrayTower 63]) = .ok [node] ∧
      node.Nests Node.elements maxNesting ∧
      ∀ k, node.Nests Node.elements k → k ≤ maxNesting := by
  obtain ⟨node, hparse, hnode⟩ :=
    (isTower_arrayTower 63).parseText_renderScript "Fastfile" (by decide)
  refine ⟨node, hparse, nests_of_bare_arrayTower hnode, fun k hk => ?_⟩
  obtain ⟨items, line, rfl, -⟩ := exists_array_of_bare hnode
  rcases nests_le_of_parseText hparse (List.mem_singleton_self _) hk with hle | ⟨-, hassigns⟩
  · exact hle
  -- an array is no assignment, and no modifier makes one
  · cases hassigns with
    | modified hform _ _ =>
      unfold modified? at hform
      split at hform <;> cases hform

/-! ### Hashes as keys of one another -/

/-- An empty array that is the key of a hash, which is the key of a hash, and so on. -/
def keyTower : Nat → Node
  | 0 => ⟨.array [], 1⟩
  | n + 1 => ⟨.hash [⟨.pair (keyTower n) ⟨.int 1, 1⟩, 1⟩] true, 1⟩

theorem isTower_keyTower (n : Nat) : IsTower 1 (keyTower n) := by
  induction n with
  | zero => exact (isTower_nil 1).mono (Nat.zero_le _)
  | succ n ih => exact ih.hashKey Nat.one_pos 1 1 1

theorem nests_of_bare_keyTower {n : Nat} {found : Node} (h : found.bare = (keyTower n).bare) :
    found.Nests (·.form.parts) (n + 1) := by
  induction n generalizing found with
  | zero =>
    obtain ⟨items, line, rfl, -⟩ := exists_array_of_bare h
    exact .last rfl
  | succ n ih =>
    obtain ⟨entries, line, rfl, hentries⟩ := exists_hash_of_bare h
    obtain ⟨entry, rfl, hentry⟩ := eq_singleton_of_bareAll hentries
    obtain ⟨key, value, pairLine, rfl, hkey⟩ := exists_pair_of_bare hentry
    have hpair : Node.Nests (·.form.parts) ⟨.pair key value, pairLine⟩ (n + 1) :=
      .inside List.mem_cons_self (ih hkey)
    exact .through rfl (List.mem_singleton_self _) hpair

/-- Hashes that are keys of one another are a script, however many they are. -/
theorem parseText_keyTower (file : String) (n : Nat) :
    ∃ node, parseText file (renderScript [keyTower n]) = .ok [node] ∧
      node.Nests (·.form.parts) (n + 1) := by
  obtain ⟨node, hparse, hnode⟩ := (isTower_keyTower n).parseText_renderScript file (by decide)
  exact ⟨node, hparse, nests_of_bare_keyTower hnode⟩

/-- There are scripts with arrays and hashes nested deeper than the limit. -/
theorem keys_nested_deeper :
    ∃ node, parseText "Fastfile" (renderScript [keyTower maxNesting]) = .ok [node] ∧
      node.Nests (·.form.parts) (maxNesting + 1) :=
  parseText_keyTower _ maxNesting

end LaneScript
