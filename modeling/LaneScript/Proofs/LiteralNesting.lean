import LaneScript.Proofs.AdjacentStrings
import LaneScript.Proofs.WellFormedActions
import LaneScript.Proofs.StateDiscipline
import LaneScript.Proofs.VariableScopes

/-!
# Arrays and hashes nested in one another

`Node.Nests held node k` says that `k` arrays and hashes in braces are nested in one another
somewhere in the node, each in what the one around it holds.  What counts as held is given: all the
parts, or only the elements, `Node.elements`, which are the values of an array or a hash but not the
keys of a hash in braces and not what a splat stands for.

While an expression is read, the state counts the levels of the nesting.  `Node.HasRoom depth` says
that a node has room at the depth: the elements nested in it are so many at most that the levels
above them and they are within the limit.

`Node.Fits d` is what is said of a node that is read at the level `d`: it has room at that depth,
and if it comes from a text, its actions have names and all strings with code in it have joined
segments.  An expression is read one level deeper than what is around it, `Node.FitsDeeper`.  For
most forms it is enough that what they hold fits, `fits_of_content`; an array and a hash in braces
need more of their items, and a string of its segments.
-/

namespace LaneScript

open List

/-! ### The parts of a tree -/

/-- The nodes of a clause. -/
def Rescue.nodes (clause : Rescue) : List Node :=
  clause.classes ++ clause.binder.toList ++ clause.body

/-- The default values of parameters. -/
def paramDefaults (params : List Param) : List Node := (paramsContent params).nodes

/-- The nodes that a form holds. -/
def Form.parts : Form → List Node
  | .atom _ | .int _ | .bigInt _ | .float _ | .str _ | .sym _ | .regex _ _ | .localVar _
  | .var _ _ => []
  | .template _ segments => segments.flatMap Segment.nodes
  | .array items | .hash items _ | .yield items | .paren items => items
  | .splat value | .doubleSplat value | .not value | .unary _ value | .defined value => [value]
  | .pair left right | .logical _ left right | .binary _ left right | .assign left right
  | .opAssign left _ right => [left, right]
  | .range low high _ => low.toList ++ high.toList
  | .blockPass value | .jump _ value | .const value _ => value.toList
  | .call receiver _ args _ => receiver.toList ++ args
  | .index receiver args => receiver :: args
  | .block found params body => found :: (paramDefaults params ++ body)
  | .lambda params body => paramDefaults params ++ body
  | .super args => args.getD []
  | .multiAssign targets value => value :: targets
  | .conditional _ condition body otherwise => condition :: (body ++ otherwise.getD [])
  | .ternary condition whenTrue whenFalse => [condition, whenTrue, whenFalse]
  | .loop _ condition body => condition :: body
  | .forEach binder iterated body => binder :: iterated :: body
  | .caseOf subject whens otherwise =>
    subject.toList ++ (whens.flatMap When.nodes ++ otherwise.getD [])
  | .guarded body rescues otherwise ensure =>
    body ++ (rescues.flatMap Rescue.nodes ++ (otherwise.getD [] ++ ensure.getD []))
  | .method singleton _ params body => singleton.toList ++ (paramDefaults params ++ body)
  | .classDef path superclass body => path :: (superclass.toList ++ body)
  | .moduleDef path body => path :: body

/-- The form is an array or a hash in braces. -/
def Form.isCollection : Form → Bool
  | .array _ | .hash _ true => true
  | _ => false

/-- The key and the value of a pair. -/
def Node.pairParts (entry : Node) : List Node :=
  match entry.form with
  | .pair key value => [key, value]
  | _ => []

/-- The values that an item of a list is: those of its pairs, if it is a pair or a hash without
braces, and none if it is a splat or passes a block on. -/
def Node.values (item : Node) : List Node :=
  match item.form with
  | .splat _ | .doubleSplat _ | .blockPass _ => []
  | .pair key value => [key, value]
  | .hash entries false => entries.flatMap Node.pairParts
  | _ => [item]

/-- The value of an entry of a hash. -/
def Node.entryValue (entry : Node) : List Node :=
  match entry.form with
  | .pair _ value => [value]
  | _ => []

/-- The elements of an array, and the values of a hash in braces. -/
def Node.elements (node : Node) : List Node :=
  match node.form with
  | .array items => items.flatMap Node.values
  | .hash entries true => entries.flatMap Node.entryValue
  | _ => []

/-- So many arrays and hashes in braces are nested in one another in the node, each in what the one
before it holds. -/
inductive Node.Nests (held : Node → List Node) : Node → Nat → Prop where
  | none (node : Node) : Nests held node 0
  | last {node : Node} (hnode : node.form.isCollection = true) : Nests held node 1
  | inside {node part : Node} {k : Nat} (hpart : part ∈ node.form.parts)
      (h : Nests held part k) : Nests held node k
  | through {node part : Node} {k : Nat} (hnode : node.form.isCollection = true)
      (hpart : part ∈ held node) (h : Nests held part k) : Nests held node (k + 1)

/-! ### Room at a depth -/

/-- The elements that are nested in the node have room at the depth, where there is any. -/
def Node.HasRoom (depth : Nat) (node : Node) : Prop :=
  depth ≤ maxNesting → ∀ k, node.Nests Node.elements k → k + depth ≤ maxNesting + 1

/-- The node has room one level deeper. -/
structure Node.HasRoomDeeper (depth : Nat) (node : Node) : Prop where
  lt : depth < maxNesting
  room : node.HasRoom (depth + 1)

section Room

variable {depth : Nat} {node part : Node} {form : Form}

theorem Node.HasRoom.inner (h : node.HasRoom depth) (hpart : part ∈ node.form.parts) :
    part.HasRoom depth :=
  fun hdepth k hk => h hdepth k (.inside hpart hk)

theorem Node.HasRoomDeeper.inner (h : node.HasRoomDeeper depth) (hpart : part ∈ node.form.parts) :
    part.HasRoomDeeper depth :=
  ⟨h.lt, h.room.inner hpart⟩

/-- What has room deeper has it here. -/
theorem Node.HasRoomDeeper.shallower (h : node.HasRoomDeeper depth) : node.HasRoom depth := by
  intro _ k hk
  have hle := h.room h.lt k hk
  omega

/-- A collection has room where its parts have, and its elements deeper. -/
theorem hasRoom_of_elements (line : Nat) (hparts : ∀ part ∈ form.parts, part.HasRoom depth)
    (helements : ∀ part ∈ Node.elements ⟨form, line⟩, part.HasRoomDeeper depth) :
    Node.HasRoom depth ⟨form, line⟩ := by
  intro hdepth k hk
  cases hk with
  | none => omega
  | last => omega
  | inside hpart h => exact hparts _ hpart hdepth k h
  | through hnode hpart h =>
    -- the collection takes a level, and what is nested in an element has room below it
    have hdeeper := helements _ hpart
    have hle := hdeeper.room hdeeper.lt _ h
    omega

/-- Any other node has room where its parts have. -/
theorem hasRoom_of_parts (line : Nat) (hform : form.isCollection = false)
    (hparts : ∀ part ∈ form.parts, part.HasRoom depth) : Node.HasRoom depth ⟨form, line⟩ := by
  refine hasRoom_of_elements line hparts fun part hpart => ?_
  -- only a collection has elements
  have helements : Node.elements ⟨form, line⟩ = [] := by
    unfold Node.elements
    split
    next hitems =>
      cases hitems
      cases hform
    next hentries =>
      cases hentries
      cases hform
    · rfl
  rw [helements] at hpart
  cases hpart

/-- The node is no collection and has no parts. -/
def Node.IsLeaf (node : Node) : Prop := node.form.isCollection = false ∧ node.form.parts = []

/-- In a leaf nothing is nested. -/
theorem Node.Nests.eq_zero {held : Node → List Node} {k : Nat} (h : node.Nests held k)
    (hleaf : node.IsLeaf) : k = 0 := by
  have hcontra : ∀ {P : Prop}, node.form.isCollection = true → P := by
    intro P hnode
    rw [hleaf.1] at hnode
    cases hnode
  cases h with
  | none => rfl
  | last hnode => exact hcontra hnode
  | inside hpart =>
    rw [hleaf.2] at hpart
    cases hpart
  | through hnode => exact hcontra hnode

end Room

/-! ### Strings in a tree -/

/-- The node is the other one or has it in it. -/
inductive Node.Holds (found : Node) : Node → Prop where
  | itself : Holds found found
  | inside {node part : Node} (hpart : part ∈ node.form.parts) (h : Holds found part) :
      Holds found node

/-- All strings with code in the node have joined segments. -/
def Node.StringsJoined (node : Node) : Prop :=
  ∀ segments line, Holds ⟨.template .double segments, line⟩ node → SegmentsJoined segments

/-- The form is a string with code. -/
def Form.isTemplate : Form → Bool
  | .template .double _ => true
  | _ => false

theorem stringsJoined_of_parts {form : Form} (line : Nat)
    (hform : ∀ segments, form = .template .double segments → SegmentsJoined segments)
    (hparts : ∀ part ∈ form.parts, part.StringsJoined) : Node.StringsJoined ⟨form, line⟩ := by
  intro segments foundLine h
  cases h with
  | itself => exact hform segments rfl
  | inside hpart h => exact hparts _ hpart segments foundLine h

/-! ### Nodes that are read at a level -/

/-- The form is no collection, no action with a name and no string with code. -/
def Form.isPlain (form : Form) : Bool := form.isSource && !form.isCollection && !form.isTemplate

/-- The node has room at the level, and if it is read from a text, its actions have names and its
strings are joined. -/
structure Node.Fits (d : ReadingLevel) (node : Node) : Prop where
  room : node.HasRoom d.depth
  wellFormed : d.written → node.IsWellFormed
  joined : d.written → node.StringsJoined

/-- The node is read one level deeper. -/
structure Node.FitsDeeper (d : ReadingLevel) (node : Node) : Prop where
  lt : d.depth < maxNesting
  fits : node.Fits d.deeper

section Fits

variable {d : ReadingLevel} {node part : Node} {form : Form}

theorem Node.FitsDeeper.hasRoomDeeper (h : node.FitsDeeper d) : node.HasRoomDeeper d.depth :=
  ⟨h.lt, h.fits.room⟩

theorem Node.FitsDeeper.shallower (h : node.FitsDeeper d) : node.Fits d :=
  ⟨h.hasRoomDeeper.shallower, h.fits.wellFormed, h.fits.joined⟩

theorem Form.isPlain_spec (h : form.isPlain = true) :
    form.isSource = true ∧ form.isCollection = false ∧ form.isTemplate = false := by
  simpa [Form.isPlain, and_assoc] using h

/-- Where the parts fit, so do the strings in them. -/
theorem joined_of_parts (line : Nat) (hform : form.isTemplate = false)
    (hparts : ∀ part ∈ form.parts, part.Fits d) (hwritten : d.written) :
    Node.StringsJoined ⟨form, line⟩ := by
  refine stringsJoined_of_parts line (fun segments h => ?_) fun part hpart =>
    (hparts part hpart).joined hwritten
  rw [h] at hform
  cases hform

/-- A plain form fits where its parts do. -/
theorem fits_of_parts (line : Nat) (hform : form.isPlain = true)
    (hparts : ∀ part ∈ form.parts, part.Fits d) : Node.Fits d ⟨form, line⟩ := by
  obtain ⟨hsource, hcollection, htemplate⟩ := Form.isPlain_spec hform
  exact ⟨hasRoom_of_parts line hcollection fun part hpart => (hparts part hpart).room,
    fun _ => isWellFormed_of_isSource hsource line, joined_of_parts line htemplate hparts⟩

theorem fitsDeeper_of_parts (line : Nat) (hform : form.isPlain = true) (hlt : d.depth < maxNesting)
    (hparts : ∀ part ∈ form.parts, part.FitsDeeper d) : Node.FitsDeeper d ⟨form, line⟩ :=
  ⟨hlt, fits_of_parts line hform fun part hpart => (hparts part hpart).fits⟩

/-- A plain form without parts fits anywhere. -/
theorem fits_leaf (line : Nat) (hform : form.isPlain = true) (hparts : form.parts = []) :
    Node.Fits d ⟨form, line⟩ :=
  fits_of_parts line hform (hparts ▸ forall_mem_nil _)

/-- All nodes of the content fit. -/
structure Content.Fits (d : ReadingLevel) (content : Content) : Prop where
  nodes : ∀ node ∈ content.nodes, node.Fits d
  regions : ∀ region ∈ content.regions, ∀ node ∈ region.content.nodes, node.Fits d

namespace Content

variable {c e : Content}

@[simp] theorem fits_empty : (∅ : Content).Fits d := ⟨nofun, nofun⟩

@[simp] theorem fits_append : (c ++ e).Fits d ↔ c.Fits d ∧ e.Fits d := by
  constructor
  · rintro ⟨hnodes, hregions⟩
    rw [show (c ++ e).nodes = c.nodes ++ e.nodes from rfl, forall_mem_append] at hnodes
    rw [show (c ++ e).regions = c.regions ++ e.regions from rfl, forall_mem_append] at hregions
    exact ⟨⟨hnodes.1, hregions.1⟩, hnodes.2, hregions.2⟩
  · rintro ⟨hc, he⟩
    exact ⟨forall_mem_append.2 ⟨hc.nodes, he.nodes⟩,
      forall_mem_append.2 ⟨hc.regions, he.regions⟩⟩

@[simp] theorem fits_ofNodes {nodes : List Node} :
    (ofNodes nodes).Fits d ↔ ∀ node ∈ nodes, node.Fits d :=
  ⟨fun h => h.nodes, fun h => ⟨h, nofun⟩⟩

@[simp] theorem fits_ofNode : (ofNode node).Fits d ↔ node.Fits d :=
  fits_ofNodes.trans forall_mem_singleton

@[simp] theorem fits_ofRegion {region : Region} :
    (ofRegion region).Fits d ↔ ∀ node ∈ region.content.nodes, node.Fits d :=
  ⟨fun h => h.regions region (mem_singleton_self region),
    fun h => ⟨nofun, forall_mem_singleton.2 h⟩⟩

/-- What holds several items fits only if each does. -/
theorem fits_all {α : Type} {content : α → Content} {items : List α}
    (h : (all content items).Fits d) : ∀ item ∈ items, (content item).Fits d := by
  induction items with
  | nil => exact forall_mem_nil _
  | cons item items ih =>
    obtain ⟨hitem, hitems⟩ := fits_append.1 h
    exact forall_mem_cons.2 ⟨hitem, ih hitems⟩

/-- What fits deeper fits here. -/
theorem Fits.shallower (h : c.Fits d.deeper) (hlt : d.depth < maxNesting) : c.Fits d :=
  ⟨fun node hnode => Node.FitsDeeper.shallower ⟨hlt, h.nodes node hnode⟩,
    fun region hregion node hnode =>
      Node.FitsDeeper.shallower ⟨hlt, h.regions region hregion node hnode⟩⟩

end Content

/-- A variable in a place that binds is a leaf. -/
theorem fits_of_asTarget (h : node.asTarget.Fits d) : node.Fits d := by
  obtain ⟨form, line⟩ := node
  unfold Node.asTarget at h
  split at h
  next name hform =>
    cases hform
    exact fits_leaf line rfl rfl
  next name nameLine hform =>
    cases hform
    exact fits_of_parts line rfl (forall_mem_singleton.2 (fits_leaf nameLine rfl rfl))
  · exact Content.fits_ofNode.1 h

theorem fits_of_rescues {clauses : List Rescue} (h : (Content.all Rescue.content clauses).Fits d) :
    ∀ node ∈ clauses.flatMap Rescue.nodes, node.Fits d := by
  intro node hnode
  obtain ⟨clause, hclause, hnode⟩ := mem_flatMap.1 hnode
  have hfits := Content.fits_all h clause hclause
  simp only [Rescue.content, Content.fits_append, Content.fits_ofNodes] at hfits
  simp only [Rescue.nodes, mem_append, Option.mem_toList] at hnode
  rcases hnode with (hnode | hnode) | hnode
  · exact hfits.1.1 node hnode
  · rw [hnode] at hfits
    exact fits_of_asTarget hfits.1.2
  · exact hfits.2 node hnode

/-- The parts of a form fit where what it holds does. -/
theorem fits_parts (h : form.content.Fits d) : ∀ part ∈ form.parts, part.Fits d := by
  cases form with
  | assign target value | opAssign target _ value =>
    obtain ⟨htarget, hvalue⟩ := Content.fits_append.1 h
    exact forall_mem_cons.2
      ⟨fits_of_asTarget htarget, forall_mem_singleton.2 (Content.fits_ofNode.1 hvalue)⟩
  | multiAssign targets value =>
    obtain ⟨htargets, hvalue⟩ := Content.fits_append.1 h
    exact forall_mem_cons.2 ⟨Content.fits_ofNode.1 hvalue, fun target htarget =>
      fits_of_asTarget (Content.fits_all htargets target htarget)⟩
  | forEach binder iterated body =>
    obtain ⟨hbinder, hrest⟩ := Content.fits_append.1 h
    exact forall_mem_cons.2 ⟨fits_of_asTarget hbinder, Content.fits_ofNodes.1 hrest⟩
  | guarded body rescues otherwise ensure =>
    obtain ⟨hfirst, hlast⟩ := Content.fits_append.1 h
    obtain ⟨hbody, hrescues⟩ := Content.fits_append.1 hfirst
    exact forall_mem_append.2 ⟨Content.fits_ofNodes.1 hbody, forall_mem_append.2
      ⟨fits_of_rescues hrescues, Content.fits_ofNodes.1 hlast⟩⟩
  | block found params body | method singleton _ params body | classDef path superclass body
  | moduleDef path body =>
    obtain ⟨hparts, hregion⟩ := Content.fits_append.1 h
    have hinner := Content.fits_ofRegion.1 hregion
    exact forall_mem_append.2 ⟨Content.fits_ofNodes.1 hparts, hinner⟩
  | lambda params body => exact Content.fits_ofRegion.1 h
  | caseOf subject whens otherwise =>
    rw [Form.parts, ← List.append_assoc]
    exact h.nodes
  | _ => exact h.nodes

/-- A plain node fits where its content does. -/
theorem fits_of_content (line : Nat) (hform : form.isPlain = true) (h : form.content.Fits d) :
    Node.Fits d ⟨form, line⟩ :=
  fits_of_parts line hform (fits_parts h)

/-- A string with code has joined segments if it comes from a text. -/
theorem fits_template {segments : List Segment} (line : Nat)
    (hsegments : d.written → SegmentsJoined segments)
    (h : (Form.template .double segments).content.Fits d) :
    Node.Fits d ⟨.template .double segments, line⟩ := by
  have hparts := fits_parts h
  refine ⟨hasRoom_of_parts line rfl fun part hpart => (hparts part hpart).room,
    fun _ => isWellFormed_of_isSource rfl line, fun hwritten => ?_⟩
  refine stringsJoined_of_parts line (fun _ heq => ?_) fun part hpart =>
    (hparts part hpart).joined hwritten
  cases heq
  exact hsegments hwritten

/-- A list of words is an array of leaves, and needs no room but its own. -/
theorem fits_wordArray (symbols : Bool) (items : List String) (line : Nat) :
    Node.Fits d ⟨Rule.wordArray symbols items line, line⟩ := by
  have hleaf : ∀ part ∈ (Rule.wordArray symbols items line).parts,
      part.IsLeaf ∧ part.values = [part] ∧ part.Fits d := by
    intro part hpart
    obtain ⟨item, -, rfl⟩ := mem_map.1 hpart
    cases symbols with
    | false => exact ⟨⟨rfl, rfl⟩, rfl, fits_leaf line rfl rfl⟩
    | true => exact ⟨⟨rfl, rfl⟩, rfl, fits_leaf line rfl rfl⟩
  -- nothing is nested in an item, so the array itself is the only level
  refine ⟨fun hdepth k hk => ?_, fun _ => isWellFormed_of_isSource rfl line,
    joined_of_parts line rfl fun part hpart => (hleaf part hpart).2.2⟩
  cases hk with
  | none => omega
  | last => omega
  | inside hpart h =>
    rw [h.eq_zero (hleaf _ hpart).1]
    omega
  | through hnode hpart h =>
    obtain ⟨item, hitem, hpart⟩ := mem_flatMap.1 hpart
    obtain ⟨hitemLeaf, hvalues, -⟩ := hleaf item hitem
    rw [hvalues, mem_singleton] at hpart
    subst hpart
    rw [h.eq_zero hitemLeaf]
    omega

/-! ### Items and entries -/

/-- An item of a list at the depth: its values have room one level deeper. -/
def Node.IsItem (d : ReadingLevel) (item : Node) : Prop :=
  ∀ value ∈ item.values, value.HasRoomDeeper d.depth

/-- An entry of a hash in braces at the depth.  Its key needs no more room than the hash. -/
def Node.IsEntry (d : ReadingLevel) (entry : Node) : Prop :=
  ∀ value ∈ entry.entryValue, value.HasRoomDeeper d.depth

theorem Node.FitsDeeper.isItem (h : node.FitsDeeper d) : node.IsItem d := by
  intro value hvalue
  obtain ⟨form, line⟩ := node
  unfold Node.values at hvalue
  split at hvalue
  case h_4 =>
    -- a pair stands for its key and its value, which are parts of it
    rename_i key value hform
    cases hform
    exact h.hasRoomDeeper.inner hvalue
  case h_5 =>
    -- a hash without braces stands for the keys and values of its pairs
    rename_i entries hform
    cases hform
    obtain ⟨entry, hentry, hvalue⟩ := mem_flatMap.1 hvalue
    refine (h.hasRoomDeeper.inner hentry).inner ?_
    obtain ⟨form, line⟩ := entry
    unfold Node.pairParts at hvalue
    split at hvalue
    next hform =>
      cases hform
      exact hvalue
    · cases hvalue
  case h_6 =>
    rw [mem_singleton.1 hvalue]
    exact h.hasRoomDeeper
  all_goals cases hvalue

/-- A pair of an argument list: its key and its value are elements. -/
theorem isItem_pair {key value : Node} (line : Nat) (hkey : key.FitsDeeper d)
    (hvalue : value.FitsDeeper d) : (Node.pair key value line).IsItem d :=
  forall_mem_cons.2
    ⟨hkey.hasRoomDeeper, forall_mem_singleton.2 hvalue.hasRoomDeeper⟩

/-- Pairs gathered into a hash keep their values. -/
theorem isItem_groupKeywords {args : List Node} (h : ∀ arg ∈ args, arg.IsItem d) :
    ∀ arg ∈ groupKeywords args, arg.IsItem d := by
  induction args with
  | nil => exact h
  | cons first others ih =>
    obtain ⟨hfirst, hothers⟩ := forall_mem_cons.1 h
    unfold groupKeywords
    split
    next hkeyword =>
      refine forall_mem_cons.2 ⟨fun value hvalue => ?_, ?_⟩
      · -- the values of the new hash are those of the pairs that it gathers
        obtain ⟨entry, hentry, hvalue⟩ := mem_flatMap.1 hvalue
        have hitem : entry.IsItem d := by
          rcases mem_cons.1 hentry with rfl | hentry
          · exact hfirst
          · exact hothers entry (mem_filter.1 hentry).1
        refine hitem value ?_
        unfold Node.pairParts at hvalue
        split at hvalue
        next hform =>
          unfold Node.values
          rw [hform]
          exact hvalue
        · cases hvalue
      · exact fun arg harg => hothers arg (mem_filter.1 harg).1
    · exact forall_mem_cons.2 ⟨hfirst, ih hothers⟩

/-- The values of the items need room one level deeper. -/
theorem fits_array {items : List Node} (line : Nat) (hfits : ∀ item ∈ items, item.Fits d)
    (h : ∀ item ∈ items, item.IsItem d) : Node.Fits d ⟨.array items, line⟩ := by
  refine ⟨hasRoom_of_elements line (fun item hitem => (hfits item hitem).room) ?_,
    fun _ => isWellFormed_of_isSource rfl line, joined_of_parts line rfl hfits⟩
  intro value hvalue
  obtain ⟨item, hitem, hvalue⟩ := mem_flatMap.1 hvalue
  exact h item hitem value hvalue

/-- So do those of the entries. -/
theorem fits_hash {entries : List Node} (line : Nat) (hfits : ∀ entry ∈ entries, entry.Fits d)
    (h : ∀ entry ∈ entries, entry.IsEntry d) : Node.Fits d ⟨.hash entries true, line⟩ := by
  refine ⟨hasRoom_of_elements line (fun entry hentry => (hfits entry hentry).room) ?_,
    fun _ => isWellFormed_of_isSource rfl line, joined_of_parts line rfl hfits⟩
  intro value hvalue
  obtain ⟨entry, hentry, hvalue⟩ := mem_flatMap.1 hvalue
  exact h entry hentry value hvalue

/-! ### Calls and blocks -/

/-- A call has a name if it has no receiver. -/
theorem fits_call {receiver : Option Node} {name : String} {args : List Node} (safe : Bool)
    (line : Nat) (hname : d.written → receiver = none → name ≠ "")
    (h : ∀ node ∈ receiver.toList ++ args, node.Fits d) :
    Node.Fits d ⟨.call receiver name args safe, line⟩ := by
  refine ⟨hasRoom_of_parts line rfl fun part hpart => (h part hpart).room, fun hwritten => ?_,
    joined_of_parts line rfl h⟩
  cases receiver with
  | none => exact isWellFormed_call (hname hwritten rfl) args safe line
  | some receiver => exact isWellFormed_of_isSource rfl line

/-- The actions of a block are those of its body. -/
theorem fits_block {call : Node} {params : List Param} {body : List Node} (line : Nat)
    (h : (Form.block call params body).content.Fits d) :
    Node.Fits d ⟨.block call params body, line⟩ := by
  have hparts := fits_parts h
  refine ⟨hasRoom_of_parts line rfl fun part hpart => (hparts part hpart).room, fun hwritten => ?_,
    joined_of_parts line rfl hparts⟩
  have hbody : ∀ node ∈ body, node.Fits d := fun node hnode =>
    hparts node (mem_cons_of_mem _ (mem_append_right _ hnode))
  exact isWellFormed_block (fun node hnode => (hbody node hnode).wellFormed hwritten) call params
    line

end Fits

/-! ### Statements -/

/-- The node is a multiple assignment, maybe with modifiers. -/
inductive Node.AssignsSeveral : Node → Prop where
  | assignment (targets : List Node) (value : Node) (line : Nat) :
      AssignsSeveral ⟨.multiAssign targets value, line⟩
  | modified {word : String} {node operand : Node} {form : Form}
      (hform : modified? word node operand = some form) (hnode : AssignsSeveral node)
      (line : Nat) : AssignsSeveral ⟨form, line⟩

/-- A statement at the level.  The values of a multiple assignment are read where it stands, and
not one level deeper. -/
structure Node.IsStatementAt (d : ReadingLevel) (node : Node) : Prop where
  lt : d.depth < maxNesting
  room : node.HasRoom (d.depth + 1) ∨ node.AssignsSeveral

section Statements

variable {d : ReadingLevel} {node operand : Node}

theorem Node.FitsDeeper.isStatementAt (h : node.FitsDeeper d) : node.IsStatementAt d :=
  ⟨h.lt, .inl h.fits.room⟩

/-- A modifier holds the statement and its operand, and nothing else. -/
theorem parts_modified? {word : String} {form : Form}
    (h : modified? word node operand = some form) :
    form.isPlain = true ∧ ∀ part ∈ form.parts, part = node ∨ part = operand := by
  unfold modified? at h
  split at h
  case h_6 => cases h
  all_goals
    cases h
    refine ⟨rfl, fun part hpart => ?_⟩
    simp only [Form.parts, Rescue.nodes, flatMap_cons, flatMap_nil, Option.getD_none,
      Option.toList_none, nil_append, append_nil, cons_append, mem_cons,
      not_mem_nil, or_false] at hpart
    tauto

theorem Node.IsStatementAt.modified {word : String} {form : Form} (h : node.IsStatementAt d)
    (hoperand : operand.FitsDeeper d) (hform : modified? word node operand = some form)
    (line : Nat) : Node.IsStatementAt d ⟨form, line⟩ := by
  obtain ⟨hplain, hparts⟩ := parts_modified? hform
  refine ⟨h.lt, ?_⟩
  rcases h.room with hnode | hseveral
  · -- a modifier takes no level, so there is room wherever both parts have it
    refine .inl (hasRoom_of_parts line (Form.isPlain_spec hplain).2.1 fun part hpart => ?_)
    rcases hparts part hpart with rfl | rfl
    · exact hnode
    · exact hoperand.fits.room
  · exact .inr (.modified hform hseveral line)

end Statements
end LaneScript
