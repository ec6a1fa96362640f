import LaneScript.Document.Build

/-!
# The walk over a script, by rules

What a script means for its document is said here a second time, as a relation: `Walk` has one rule
for each kind of statement, and nothing of how the events are collected.  A block that is recognised
hands its statements on, in the context with one part replaced and the other kept; a `desc` acts on
no lane; any other call without a receiver and without a block is one action; and whatever is left
is one piece of source text.

* `opening?_eq_some_iff` — the blocks that the builder recognises are those of `Opens`.
* `walk_iff` — every script has exactly one trace, and it is the list of its events without the
  requests for other scripts.

The relation is the specification that the theorems on documents are stated with; the requests are
no part of it, since they never touch a document.
-/

namespace LaneScript

/-! ### The rules -/

/-- The arguments give a name: the first of them decodes to a string or a symbol. -/
def NamedBy (args : List Node) (name : String) : Prop :=
  decodeArguments args = .str name ∨ decodeArguments args = .symbol name

/-- The block of a call opens a place of its own. -/
inductive Opens : String → List Node → Opening → Prop where
  | beforeAll (args : List Node) : Opens "before_all" args (.hook .beforeAll)
  | afterAll (args : List Node) : Opens "after_all" args (.hook .afterAll)
  | error (args : List Node) : Opens "error" args (.hook .error)
  | lane {args : List Node} {name : String} (h : NamedBy args name) :
      Opens "lane" args (.lane name false)
  | privateLane {args : List Node} {name : String} (h : NamedBy args name) :
      Opens "private_lane" args (.lane name true)
  | platform {args : List Node} {name : String} (h : NamedBy args name) :
      Opens "platform" args (.platform name)

/-- The statement is neither a call without a receiver nor the block of a call that opens a
place. -/
def Node.IsOther (node : Node) : Prop :=
  node.bareCallName? = none ∧
    ∀ name args safe callLine params body opening,
      node.form = .block ⟨.call none name args safe, callLine⟩ params body →
        ¬ Opens name args opening

/-- **The walk.** `Walk render address script trace` tells that the statements of `script`, visited
in the context `address`, come to the events `trace`, in depth-first order of the source. -/
inductive Walk (render : Node → String) : Address → List Node → List Event → Prop where
  | nil (address : Address) : Walk render address [] []
  /-- A description without a value says nothing. -/
  | silent {address args safe line rest trace} (habsent : decodeArguments args = .absent)
      (hrest : Walk render address rest trace) :
      Walk render address (⟨.call none "desc" args safe, line⟩ :: rest) trace
  | description {address args safe line rest trace} (hvalue : decodeArguments args ≠ .absent)
      (hrest : Walk render address rest trace) :
      Walk render address (⟨.call none "desc" args safe, line⟩ :: rest)
        (.description (decodeArguments args).text :: trace)
  | call {address name args safe line rest trace} (hname : name ≠ "desc")
      (hrest : Walk render address rest trace) :
      Walk render address (⟨.call none name args safe, line⟩ :: rest)
        (.action address (.call name (decodeArguments args)) :: trace)
  /-- A hook takes the place of the lane. -/
  | hook {address name args safe callLine params body line rest key inner trace}
      (hopens : Opens name args (.hook key))
      (hbody : Walk render ⟨address.platform, some key⟩ body inner)
      (hrest : Walk render address rest trace) :
      Walk render address
        (⟨.block ⟨.call none name args safe, callLine⟩ params body, line⟩ :: rest) (inner ++ trace)
  /-- The head of a lane comes before the statements in it. -/
  | lane {address name args safe callLine params body line rest lane isPrivate inner trace}
      (hopens : Opens name args (.lane lane isPrivate))
      (hbody : Walk render ⟨address.platform, some (.named lane)⟩ body inner)
      (hrest : Walk render address rest trace) :
      Walk render address
        (⟨.block ⟨.call none name args safe, callLine⟩ params body, line⟩ :: rest)
        (.head ⟨address.platform, some (.named lane)⟩ isPrivate :: inner ++ trace)
  | platform {address name args safe callLine params body line rest platform inner trace}
      (hopens : Opens name args (.platform platform))
      (hbody : Walk render ⟨some platform, address.lane⟩ body inner)
      (hrest : Walk render address rest trace) :
      Walk render address
        (⟨.block ⟨.call none name args safe, callLine⟩ params body, line⟩ :: rest) (inner ++ trace)
  | code {address node rest trace} (hother : node.IsOther)
      (hrest : Walk render address rest trace) :
      Walk render address (node :: rest) (.action address (.code (render node)) :: trace)

/-! ### The blocks that are recognised -/

theorem Value.content?_eq_some_iff {value : Value} {name : String} :
    value.content? = some name ↔ value = .str name ∨ value = .symbol name := by
  cases value <;> simp [Value.content?]

/-- The builder recognises exactly the blocks of the rules. -/
theorem opening?_eq_some_iff {name : String} {args : List Node} {opening : Opening} :
    opening? name args = some opening ↔ Opens name args opening := by
  constructor
  · intro h
    unfold opening? at h
    -- Three names open a hook whatever their arguments are; the other three need a name.
    split at h
    · cases h; exact .beforeAll args
    · cases h; exact .afterAll args
    · cases h; exact .error args
    · obtain ⟨lane, hlane, rfl⟩ := Option.map_eq_some_iff.mp h
      exact .lane (Value.content?_eq_some_iff.mp hlane)
    · obtain ⟨lane, hlane, rfl⟩ := Option.map_eq_some_iff.mp h
      exact .privateLane (Value.content?_eq_some_iff.mp hlane)
    · obtain ⟨platform, hplatform, rfl⟩ := Option.map_eq_some_iff.mp h
      exact .platform (Value.content?_eq_some_iff.mp hplatform)
    · cases h
  · intro h
    cases h with
    | beforeAll | afterAll | error => rfl
    | lane h | privateLane h | platform h =>
      have hname := Value.content?_eq_some_iff.mpr h
      simp [opening?, hname]

/-! ### The statements that are kept as source text -/

theorem Node.isOther_of_ne {node : Node}
    (hcall : ∀ name args safe line, node ≠ ⟨.call none name args safe, line⟩)
    (hblock : ∀ name args safe callLine params body line,
      node ≠ ⟨.block ⟨.call none name args safe, callLine⟩ params body, line⟩) :
    node.IsOther := by
  obtain ⟨form, line⟩ := node
  refine ⟨?_, ?_⟩
  · unfold Node.bareCallName?
    split
    · next name args safe hform =>
      cases hform
      exact absurd rfl (hcall name args safe line)
    · rfl
  · intro name args safe callLine params body opening hform
    cases hform
    exact absurd rfl (hblock name args safe callLine params body line)

/-- The block of a call that opens no place is kept as source text. -/
theorem isOther_block {name : String} {args : List Node} (h : opening? name args = none)
    (safe : Bool) (callLine : Nat) (params : List Param) (body : List Node) (line : Nat) :
    (⟨.block ⟨.call none name args safe, callLine⟩ params body, line⟩ : Node).IsOther := by
  refine ⟨rfl, ?_⟩
  intro name' args' safe' callLine' params' body' opening hform hopens
  cases hform
  rw [opening?_eq_some_iff.mpr hopens] at h
  cases h

/-! ### The trace of a script -/

/-- The event asks for another script. -/
def Event.isRequest : Event → Bool
  | .request _ => true
  | _ => false

/-- The events that concern the document. -/
def recorded (events : List Event) : List Event := events.filter (!·.isRequest)

@[simp] theorem recorded_append (events others : List Event) :
    recorded (events ++ others) = recorded events ++ recorded others :=
  List.filter_append ..

/-- What a block's opening adds to the trace: only the head of a lane. -/
theorem recorded_openingEvents (address : Address) (opening : Opening) :
    recorded (opening.events address) = opening.events address := by
  cases opening <;> rfl

/-- A call that is no description is one action; the request that an `import` makes is not
recorded. -/
theorem recorded_callEvents {name : String} (hname : name ≠ "desc") (address : Address)
    (args : List Node) (line : Nat) :
    recorded (callEvents address name args line)
      = [.action address (.call name (decodeArguments args))] := by
  have hne : (name == "desc") = false := by simpa using hname
  simp only [callEvents, hne, Bool.false_eq_true, if_false, recorded_append]
  cases importPath? name (decodeArguments args) <;> rfl

/-- The events of a statement that no rule but the last one speaks of. -/
theorem events_of_isOther {node : Node} (h : node.IsOther) (render : Node → String)
    (address : Address) : node.events render address = [.action address (.code (render node))] := by
  unfold Node.events
  split
  · simp [Node.IsOther, Node.bareCallName?] at h
  -- A block is one piece of source text unless its call opens a place.
  · next name args safe callLine params body line =>
    cases hopening : opening? name args with
    | none => rfl
    | some opening =>
      exact absurd (opening?_eq_some_iff.mp hopening)
        (h.2 name args safe callLine params body opening rfl)
  · rfl

/-- Whatever the walk finds is what the builder records. -/
theorem Walk.eq_recorded {render : Node → String} {address : Address} {script : List Node}
    {trace : List Event} (h : Walk render address script trace) :
    trace = recorded (scriptEvents render address script) := by
  induction h with
  | nil => rfl
  | silent habsent hrest ih =>
    simp [scriptEvents, Node.events, callEvents, habsent, Value.isAbsent, ih]
  | @description address args safe line rest trace hvalue hrest ih =>
    -- The builder asks whether the value is absent, the rule whether it is the absent value.
    have hpresent : (decodeArguments args).isAbsent = false := by
      cases hd : decodeArguments args with
      | absent => exact absurd hd hvalue
      | _ => rfl
    simp [scriptEvents, Node.events, callEvents, hpresent, ih, recorded, Event.isRequest]
  | call hname hrest ih =>
    rw [scriptEvents, Node.events, recorded_append, recorded_callEvents hname, ih]
    rfl
  | hook hopens hbody hrest ihbody ihrest
  | lane hopens hbody hrest ihbody ihrest
  | platform hopens hbody hrest ihbody ihrest =>
    -- The events of the opening come before those of the body, and none of them is a request.
    rw [scriptEvents, Node.events, opening?_eq_some_iff.mpr hopens]
    simp only [recorded_append, recorded_openingEvents]
    rw [ihbody, ihrest]
    rfl
  | code hother hrest ih =>
    rw [scriptEvents, recorded_append, events_of_isOther hother, ih]
    rfl

/-- A call without a receiver and without a block can be walked over. -/
theorem Walk.cons_call {render : Node → String} {address : Address} {rest : List Node}
    {trace : List Event} (h : Walk render address rest trace) (name : String) (args : List Node)
    (safe : Bool) (line : Nat) :
    ∃ trace', Walk render address (⟨.call none name args safe, line⟩ :: rest) trace' := by
  by_cases hname : name = "desc"
  · subst hname
    by_cases habsent : decodeArguments args = .absent
    · exact ⟨_, .silent habsent h⟩
    · exact ⟨_, .description habsent h⟩
  · exact ⟨_, .call hname h⟩

/-- A block that opens a place can be walked over when its body can. -/
theorem Walk.cons_block {render : Node → String} {address : Address} {rest : List Node}
    {trace : List Event} (h : Walk render address rest trace) {name : String} {args : List Node}
    {opening : Opening} (hopens : Opens name args opening) {body : List Node}
    {inner : List Event} (hbody : Walk render (opening.enter address) body inner) (safe : Bool)
    (callLine : Nat) (params : List Param) (line : Nat) :
    ∃ trace', Walk render address
      (⟨.block ⟨.call none name args safe, callLine⟩ params body, line⟩ :: rest) trace' := by
  cases opening with
  | hook key => exact ⟨_, .hook hopens hbody h⟩
  | lane lane isPrivate => exact ⟨_, .lane hopens hbody h⟩
  | platform platform => exact ⟨_, .platform hopens hbody h⟩

/-- Every script can be walked over, in every context.  The induction follows the builder's own
recursion: into the body of a block that opens a place, and along the statements. -/
theorem exists_walk (render : Node → String) (address : Address) (script : List Node) :
    ∃ trace, Walk render address script trace := by
  -- For one statement the motive says that it can stand before whatever can be walked over.
  refine scriptEvents.induct
    (fun address node => ∀ rest trace, Walk render address rest trace →
      ∃ trace', Walk render address (node :: rest) trace')
    (fun address script => ∃ trace, Walk render address script trace)
    ?call ?block ?unopened ?other ?nil ?cons address script
  case call =>
    intro address name args safe line rest trace hrest
    exact hrest.cons_call name args safe line
  case block =>
    intro address name args safe callLine params body line opening hopening hbody rest trace hrest
    obtain ⟨inner, hinner⟩ := hbody
    exact hrest.cons_block (opening?_eq_some_iff.mp hopening) hinner safe callLine params line
  case unopened =>
    intro address name args safe callLine params body line hnone rest trace hrest
    exact ⟨_, .code (isOther_block hnone safe callLine params body line) hrest⟩
  case other =>
    intro address node hcall hblock rest trace hrest
    exact ⟨_, .code (Node.isOther_of_ne hcall hblock) hrest⟩
  case nil =>
    intro address
    exact ⟨[], .nil address⟩
  case cons =>
    intro address node nodes hnode hnodes
    obtain ⟨trace, htrace⟩ := hnodes
    exact hnode nodes trace htrace

/-- **A script has exactly one trace:** its events, less the requests for other scripts. -/
theorem walk_iff (render : Node → String) (address : Address) (script : List Node)
    (trace : List Event) :
    Walk render address script trace ↔
      trace = recorded (scriptEvents render address script) := by
  refine ⟨Walk.eq_recorded, ?_⟩
  rintro rfl
  obtain ⟨trace, htrace⟩ := exists_walk render address script
  rw [← htrace.eq_recorded]
  exact htrace

end LaneScript
