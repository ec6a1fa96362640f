import LaneScript.Proofs.ReaderRuns

/-!
# The scopes of a syntax tree

Which local variables a tree binds, and where they are seen, is said here by the tree alone.
`Form.content` lists what a form holds: the names that it binds itself, the name that it uses, the
nodes in it that stand in the same scope, and the regions that it opens.  A region is a scope of its
own, the parameters and the body of a block, a lambda or a method, or the body of a class or module;
what a hard region does not bind itself is not seen in it.

* `Node.Binds` — a name has a binding occurrence in the node, directly in the scope of the node.
* `Node.Scoped` — every other occurrence of a variable in the node is one of a name that is visible
  there.

The readers of the grammar keep a stack of scopes instead, and never look at a tree; `Accounts` ties
the two together.
-/

namespace LaneScript

open LaneScript.Parser

/-! ### What a form holds -/

/-- A scope that a form opens. -/
structure Region where
  /-- The names around the region are not seen in it. -/
  hard : Bool
  params : List Param
  body : List Node

/-- Parts of a tree that stand in one scope. -/
structure Content where
  /-- The names that are bound here. -/
  names : List String
  /-- The names that are used here. -/
  uses : List String
  nodes : List Node
  regions : List Region

namespace Content

instance : EmptyCollection Content := ⟨⟨[], [], [], []⟩⟩

instance : Append Content :=
  ⟨fun c d => ⟨c.names ++ d.names, c.uses ++ d.uses, c.nodes ++ d.nodes, c.regions ++ d.regions⟩⟩

/-- Names that are bound. -/
def ofNames (names : List String) : Content := ⟨names, [], [], []⟩

def ofNodes (nodes : List Node) : Content := ⟨[], [], nodes, []⟩

def ofNode (node : Node) : Content := ofNodes [node]

def ofRegion (region : Region) : Content := ⟨[], [], [], [region]⟩

theorem append_empty (c : Content) : c ++ ∅ = c := by
  show Content.mk (c.names ++ []) (c.uses ++ []) (c.nodes ++ []) (c.regions ++ []) = c
  simp only [List.append_nil]

theorem append_assoc (c d e : Content) : c ++ d ++ e = c ++ (d ++ e) := by
  show Content.mk (c.names ++ d.names ++ e.names) (c.uses ++ d.uses ++ e.uses)
    (c.nodes ++ d.nodes ++ e.nodes) (c.regions ++ d.regions ++ e.regions) = _
  simp only [List.append_assoc]
  rfl

/-- The contents of some items, one after the other. -/
def all {α : Type} (content : α → Content) : List α → Content
  | [] => ∅
  | item :: items => content item ++ all content items

end Content

/-- A node in a place that binds: a local variable there is no use of the name. -/
def Node.asTarget (node : Node) : Content :=
  match node.form with
  | .localVar name | .splat ⟨.localVar name, _⟩ => .ofNames [name]
  | _ => .ofNode node

mutual

/-- The names of a parameter and its default value. -/
def Param.content : Param → Content
  | .required name | .keyword name | .block name => .ofNames [name]
  | .optional name default | .optionalKeyword name default => ⟨[name], [], [default], []⟩
  | .rest name | .keywordRest name => .ofNames name.toList
  | .destructured params => paramsContent params

/-- The names of parameters and their default values. -/
def paramsContent : List Param → Content
  | [] => ∅
  | param :: params => param.content ++ paramsContent params

end

def Region.content (region : Region) : Content :=
  paramsContent region.params ++ .ofNodes region.body

/-- The code that is interpolated here. -/
def Segment.nodes : Segment → List Node
  | .text _ => []
  | .code body => body

def When.nodes (branch : When) : List Node := branch.conditions ++ branch.body

def Rescue.content (clause : Rescue) : Content :=
  .ofNodes clause.classes ++ clause.binder.elim ∅ Node.asTarget ++ .ofNodes clause.body

/-- What a form holds.  The call of a block, the superclass of a class and the code in a string are
parts like any other; parameters and bodies of definitions, blocks and lambdas are regions. -/
def Form.content : Form → Content
  | .atom _ | .int _ | .bigInt _ | .float _ | .str _ | .sym _ | .regex _ _ | .var _ _ => ∅
  | .template _ segments => .ofNodes (segments.flatMap Segment.nodes)
  | .array items | .hash items _ | .yield items | .paren items => .ofNodes items
  | .splat value | .doubleSplat value | .not value | .unary _ value | .defined value =>
    .ofNode value
  | .pair left right | .logical _ left right | .binary _ left right => .ofNodes [left, right]
  | .range low high _ => .ofNodes (low.toList ++ high.toList)
  | .blockPass value | .jump _ value => .ofNodes value.toList
  | .localVar name => ⟨[], [name], [], []⟩
  | .const scope _ => .ofNodes scope.toList
  | .call receiver _ args _ => .ofNodes (receiver.toList ++ args)
  | .index receiver args => .ofNodes (receiver :: args)
  | .block found params body => .ofNode found ++ .ofRegion ⟨false, params, body⟩
  | .lambda params body => .ofRegion ⟨false, params, body⟩
  | .super args => .ofNodes (args.getD [])
  | .assign target value | .opAssign target _ value => target.asTarget ++ .ofNode value
  | .multiAssign targets value => .all Node.asTarget targets ++ .ofNode value
  | .conditional _ condition body otherwise =>
    .ofNodes (condition :: body ++ otherwise.getD [])
  | .ternary condition whenTrue whenFalse => .ofNodes [condition, whenTrue, whenFalse]
  | .loop _ condition body => .ofNodes (condition :: body)
  | .forEach binder iterated body => binder.asTarget ++ .ofNodes (iterated :: body)
  | .caseOf subject whens otherwise =>
    .ofNodes (subject.toList ++ whens.flatMap When.nodes ++ otherwise.getD [])
  | .guarded body rescues otherwise ensure =>
    .ofNodes body ++ .all Rescue.content rescues ++ .ofNodes (otherwise.getD [] ++ ensure.getD [])
  | .method singleton _ params body =>
    .ofNodes singleton.toList ++ .ofRegion ⟨true, params, body⟩
  | .classDef path superclass body =>
    .ofNodes (path :: superclass.toList) ++ .ofRegion ⟨true, [], body⟩
  | .moduleDef path body => .ofNode path ++ .ofRegion ⟨true, [], body⟩

/-! ### Scoping -/

/-- The name has a binding occurrence in the node, and no other scope is between the two. -/
inductive Node.Binds (name : String) : Node → Prop where
  | itself {node : Node} (hname : name ∈ node.form.content.names) : Binds name node
  | inside {node part : Node} (hpart : part ∈ node.form.content.nodes) (h : Binds name part) :
      Binds name node

/-- The name has a binding occurrence in the content, directly in its scope. -/
def Content.Binds (name : String) (content : Content) : Prop :=
  name ∈ content.names ∨ ∃ node ∈ content.nodes, node.Binds name

/-- The names that are visible in the region, where those around it are given. -/
def Region.visible (region : Region) (around : String → Prop) (name : String) : Prop :=
  region.content.Binds name ∨ region.hard = false ∧ around name

/-- Each variable that the node uses is visible where it is used. -/
inductive Node.Scoped : (String → Prop) → Node → Prop where
  | intro {visible : String → Prop} {node : Node}
      (huses : ∀ name ∈ node.form.content.uses, visible name)
      (hnodes : ∀ part ∈ node.form.content.nodes, Scoped visible part)
      (hregions : ∀ region ∈ node.form.content.regions, ∀ part ∈ region.content.nodes,
        Scoped (region.visible visible) part) : Scoped visible node

/-- Each variable that the content uses is visible where it is used. -/
structure Content.Scoped (visible : String → Prop) (content : Content) : Prop where
  uses : ∀ name ∈ content.uses, visible name
  nodes : ∀ node ∈ content.nodes, node.Scoped visible
  regions : ∀ region ∈ content.regions, ∀ part ∈ region.content.nodes,
    part.Scoped (region.visible visible)

theorem Node.binds_iff {name : String} {node : Node} :
    node.Binds name ↔ node.form.content.Binds name := by
  constructor
  · rintro (hname | ⟨hpart, h⟩)
    · exact .inl hname
    · exact .inr ⟨_, hpart, h⟩
  · rintro (hname | ⟨part, hpart, h⟩)
    · exact .itself hname
    · exact .inside hpart h

theorem Node.scoped_iff {visible : String → Prop} {node : Node} :
    node.Scoped visible ↔ node.form.content.Scoped visible := by
  constructor
  · rintro ⟨huses, hnodes, hregions⟩
    exact ⟨huses, hnodes, hregions⟩
  · rintro ⟨huses, hnodes, hregions⟩
    exact ⟨huses, hnodes, hregions⟩

/-- What is scoped stays so where more names are visible. -/
theorem Node.Scoped.mono {visible visible' : String → Prop} {node : Node}
    (h : node.Scoped visible) (hvisible : ∀ name, visible name → visible' name) :
    node.Scoped visible' := by
  induction h generalizing visible' with
  | intro huses hnodes hregions ihnodes ihregions =>
    refine .intro (fun name hname => hvisible name (huses name hname)) ?_ ?_
    · intro part hpart
      exact ihnodes part hpart hvisible
    · intro region hregion part hpart
      refine ihregions region hregion part hpart fun name hname => ?_
      exact hname.imp_right fun ⟨hhard, hname⟩ => ⟨hhard, hvisible name hname⟩

namespace Content

variable {name : String} {visible visible' : String → Prop} {c d : Content}

theorem Scoped.mono (h : c.Scoped visible) (hvisible : ∀ name, visible name → visible' name) :
    c.Scoped visible' := by
  refine ⟨fun name hname => hvisible name (h.uses name hname), ?_, ?_⟩
  · intro node hnode
    exact (h.nodes node hnode).mono hvisible
  · intro region hregion part hpart
    refine (h.regions region hregion part hpart).mono fun name hname => ?_
    exact hname.imp_right fun ⟨hhard, hname⟩ => ⟨hhard, hvisible name hname⟩

@[simp] theorem binds_empty : ¬ (∅ : Content).Binds name := by
  rintro (h | ⟨node, h, -⟩) <;> cases h

@[simp] theorem scoped_empty : (∅ : Content).Scoped visible := ⟨nofun, nofun, nofun⟩

theorem binds_append : (c ++ d).Binds name ↔ c.Binds name ∨ d.Binds name := by
  show name ∈ c.names ++ d.names ∨ (∃ node ∈ c.nodes ++ d.nodes, node.Binds name) ↔ _
  simp only [Binds, List.mem_append, or_and_right, exists_or]
  exact or_or_or_comm

theorem scoped_append : (c ++ d).Scoped visible ↔ c.Scoped visible ∧ d.Scoped visible := by
  constructor
  · rintro ⟨huses, hnodes, hregions⟩
    rw [show (c ++ d).uses = c.uses ++ d.uses from rfl, List.forall_mem_append] at huses
    rw [show (c ++ d).nodes = c.nodes ++ d.nodes from rfl, List.forall_mem_append] at hnodes
    rw [show (c ++ d).regions = c.regions ++ d.regions from rfl, List.forall_mem_append]
      at hregions
    exact ⟨⟨huses.1, hnodes.1, hregions.1⟩, huses.2, hnodes.2, hregions.2⟩
  · rintro ⟨hc, hd⟩
    exact ⟨List.forall_mem_append.2 ⟨hc.uses, hd.uses⟩,
      List.forall_mem_append.2 ⟨hc.nodes, hd.nodes⟩,
      List.forall_mem_append.2 ⟨hc.regions, hd.regions⟩⟩

@[simp] theorem scoped_ofNames (names : List String) : (ofNames names).Scoped visible :=
  ⟨nofun, nofun, nofun⟩

end Content
end LaneScript
