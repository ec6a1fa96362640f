import LaneScript.Proofs.DocumentEntries
import LaneScript.Tree.Same

/-!
# Trees without their lines

The line of a node is there for messages only.  `Node.mapLines` changes all lines of a tree by one
function, and what a tree is written as, what its values are and what document it comes to do not
see the change:

* `Node.text_mapLines` — the source text of a tree does not depend on its lines;
* `Node.decode_mapLines` — nor does the value it decodes to;
* `document_build_mapLines` — nor does the document of a script;
* `sameNodes_mapLinesAll` — nor does what a script is the same as, so that two scripts that agree
  once their lines are taken away are the same (`sameNodes_of_bareAll_eq`).

`Node.bare` and `bareAll` take the lines away, by making them all zero.  An equation between bare
trees composes by rewriting, which the Boolean comparison of `Node.same` does not.
-/

namespace LaneScript

mutual

/-- The node with its lines changed. -/
def Node.mapLines (f : Nat → Nat) : Node → Node
  | ⟨form, line⟩ => ⟨form.mapLines f, f line⟩

/-- The form with its lines changed. -/
def Form.mapLines (f : Nat → Nat) : Form → Form
  | .atom atom => .atom atom
  | .int value => .int value
  | .bigInt text => .bigInt text
  | .float value => .float value
  | .str content => .str content
  | .template quote segments => .template quote (mapLinesSegments f segments)
  | .sym name => .sym name
  | .regex source flags => .regex source flags
  | .array items => .array (mapLinesAll f items)
  | .hash entries braced => .hash (mapLinesAll f entries) braced
  | .pair key value => .pair (key.mapLines f) (value.mapLines f)
  | .range low high exclusive => .range (mapLines? f low) (mapLines? f high) exclusive
  | .splat value => .splat (value.mapLines f)
  | .doubleSplat value => .doubleSplat (value.mapLines f)
  | .blockPass value => .blockPass (mapLines? f value)
  | .localVar name => .localVar name
  | .var sigil name => .var sigil name
  | .const scope name => .const (mapLines? f scope) name
  | .call receiver name args safe => .call (mapLines? f receiver) name (mapLinesAll f args) safe
  | .index receiver args => .index (receiver.mapLines f) (mapLinesAll f args)
  | .block call params body =>
    .block (call.mapLines f) (mapLinesParams f params) (mapLinesAll f body)
  | .lambda params body => .lambda (mapLinesParams f params) (mapLinesAll f body)
  | .yield args => .yield (mapLinesAll f args)
  | .super args => .super (mapLinesAll? f args)
  | .assign target value => .assign (target.mapLines f) (value.mapLines f)
  | .opAssign target op value => .opAssign (target.mapLines f) op (value.mapLines f)
  | .multiAssign targets value => .multiAssign (mapLinesAll f targets) (value.mapLines f)
  | .logical connective left right => .logical connective (left.mapLines f) (right.mapLines f)
  | .not operand => .not (operand.mapLines f)
  | .binary op left right => .binary op (left.mapLines f) (right.mapLines f)
  | .unary op operand => .unary op (operand.mapLines f)
  | .defined operand => .defined (operand.mapLines f)
  | .paren body => .paren (mapLinesAll f body)
  | .conditional negated condition body otherwise =>
    .conditional negated (condition.mapLines f) (mapLinesAll f body) (mapLinesAll? f otherwise)
  | .ternary condition whenTrue whenFalse =>
    .ternary (condition.mapLines f) (whenTrue.mapLines f) (whenFalse.mapLines f)
  | .loop negated condition body => .loop negated (condition.mapLines f) (mapLinesAll f body)
  | .forEach binder iterated body =>
    .forEach (binder.mapLines f) (iterated.mapLines f) (mapLinesAll f body)
  | .caseOf subject whens otherwise =>
    .caseOf (mapLines? f subject) (mapLinesWhens f whens) (mapLinesAll? f otherwise)
  | .guarded body rescues otherwise ensure =>
    .guarded (mapLinesAll f body) (mapLinesRescues f rescues) (mapLinesAll? f otherwise)
      (mapLinesAll? f ensure)
  | .jump jump value => .jump jump (mapLines? f value)
  | .method singleton name params body =>
    .method (mapLines? f singleton) name (mapLinesParams f params) (mapLinesAll f body)
  | .classDef path superclass body =>
    .classDef (path.mapLines f) (mapLines? f superclass) (mapLinesAll f body)
  | .moduleDef path body => .moduleDef (path.mapLines f) (mapLinesAll f body)

/-- The nodes with their lines changed. -/
def mapLinesAll (f : Nat → Nat) : List Node → List Node
  | [] => []
  | node :: nodes => node.mapLines f :: mapLinesAll f nodes

/-- A node that may be there, with its lines changed. -/
def mapLines? (f : Nat → Nat) : Option Node → Option Node
  | none => none
  | some node => some (node.mapLines f)

/-- Nodes that may be there, with their lines changed. -/
def mapLinesAll? (f : Nat → Nat) : Option (List Node) → Option (List Node)
  | none => none
  | some nodes => some (mapLinesAll f nodes)

/-- The piece of a literal with its lines changed. -/
def Segment.mapLines (f : Nat → Nat) : Segment → Segment
  | .text content => .text content
  | .code body => .code (mapLinesAll f body)

/-- The pieces of a literal with their lines changed. -/
def mapLinesSegments (f : Nat → Nat) : List Segment → List Segment
  | [] => []
  | segment :: segments => segment.mapLines f :: mapLinesSegments f segments

/-- The branch with its lines changed. -/
def When.mapLines (f : Nat → Nat) : When → When
  | ⟨conditions, body⟩ => ⟨mapLinesAll f conditions, mapLinesAll f body⟩

/-- The branches with their lines changed. -/
def mapLinesWhens (f : Nat → Nat) : List When → List When
  | [] => []
  | branch :: branches => branch.mapLines f :: mapLinesWhens f branches

/-- The clause with its lines changed. -/
def Rescue.mapLines (f : Nat → Nat) : Rescue → Rescue
  | ⟨classes, binder, body⟩ =>
    ⟨mapLinesAll f classes, mapLines? f binder, mapLinesAll f body⟩

/-- The clauses with their lines changed. -/
def mapLinesRescues (f : Nat → Nat) : List Rescue → List Rescue
  | [] => []
  | clause :: clauses => clause.mapLines f :: mapLinesRescues f clauses

/-- The parameter with its lines changed. -/
def Param.mapLines (f : Nat → Nat) : Param → Param
  | .required name => .required name
  | .optional name default => .optional name (default.mapLines f)
  | .rest name => .rest name
  | .keyword name => .keyword name
  | .optionalKeyword name default => .optionalKeyword name (default.mapLines f)
  | .keywordRest name => .keywordRest name
  | .block name => .block name
  | .destructured params => .destructured (mapLinesParams f params)

/-- The parameters with their lines changed. -/
def mapLinesParams (f : Nat → Nat) : List Param → List Param
  | [] => []
  | param :: params => param.mapLines f :: mapLinesParams f params

end

/-! ### Small facts -/

@[simp] theorem Node.form_mapLines (f : Nat → Nat) (node : Node) :
    (node.mapLines f).form = node.form.mapLines f := by
  cases node
  rfl

theorem mapLinesAll_eq_map (f : Nat → Nat) (nodes : List Node) :
    mapLinesAll f nodes = nodes.map (Node.mapLines f) := by
  induction nodes with
  | nil => rfl
  | cons node nodes ih => rw [mapLinesAll, ih, List.map_cons]

@[simp] theorem mapLinesAll_isEmpty (f : Nat → Nat) (nodes : List Node) :
    (mapLinesAll f nodes).isEmpty = nodes.isEmpty := by
  cases nodes <;> rfl

@[simp] theorem mapLinesParams_isEmpty (f : Nat → Nat) (params : List Param) :
    (mapLinesParams f params).isEmpty = params.isEmpty := by
  cases params <;> rfl

@[simp] theorem Node.needsParensAsReceiver_mapLines (f : Nat → Nat) (node : Node) :
    (node.mapLines f).needsParensAsReceiver = node.needsParensAsReceiver := by
  obtain ⟨form, line⟩ := node
  cases form <;> rfl

@[simp] theorem Node.needsParensAsOperand_mapLines (f : Nat → Nat) (node : Node) :
    (node.mapLines f).needsParensAsOperand = node.needsParensAsOperand := by
  obtain ⟨form, line⟩ := node
  cases form <;> rfl

@[simp] theorem Node.labelKey?_mapLines (f : Nat → Nat) (node : Node) :
    (node.mapLines f).labelKey? = node.labelKey? := by
  obtain ⟨form, line⟩ := node
  cases form <;> rfl

/-! ### Source text -/

/-- What follows the body of an `if`, unless it is a single conditional. -/
theorem otherwiseText_some {body : List Node}
    (h : ∀ condition body' otherwise line,
      body ≠ [⟨.conditional false condition body' otherwise, line⟩]) (indent : Nat) :
    otherwiseText indent (some body)
      = "else" ++ bodyText indent (texts (indent + 1) body) ++ "end" := by
  unfold otherwiseText
  split
  · next heq => cases heq
  · next condition body' otherwise line heq =>
    exact absurd (Option.some.inj heq) (h condition body' otherwise line)
  · next heq =>
    cases heq
    rfl

/-- What stands after an `if` does not depend on lines, when the first node of it does not. -/
theorem otherwiseText_mapLinesAll (f : Nat → Nat) (indent : Nat) (first : Node)
    (others : List Node) (hfirst : (first.mapLines f).text indent = first.text indent)
    (htexts : texts (indent + 1) (mapLinesAll f (first :: others))
      = texts (indent + 1) (first :: others)) :
    otherwiseText indent (some (mapLinesAll f (first :: others)))
      = otherwiseText indent (some (first :: others)) := by
  by_cases h : ∃ condition body otherwise line,
      first :: others = [⟨.conditional false condition body otherwise, line⟩]
  · -- an `elsif` differs from an `if` only in its first word
    obtain ⟨condition, body, otherwise, line, heq⟩ := h
    cases heq
    simp only [Node.mapLines, Form.mapLines, Node.text, Form.text, String.append_assoc,
      String.append_right_inj] at hfirst
    simp only [mapLinesAll, Node.mapLines, Form.mapLines, otherwiseText, String.append_assoc,
      hfirst]
  · have hmapped : ∀ condition body otherwise line, mapLinesAll f (first :: others)
        ≠ [⟨.conditional false condition body otherwise, line⟩] := by
      intro condition body otherwise line heq
      obtain ⟨form, line'⟩ := first
      cases others <;> cases form <;> simp [mapLinesAll, Node.mapLines, Form.mapLines] at heq
      exact h ⟨_, _, _, _, by rw [heq.1.1]⟩
    rw [otherwiseText_some hmapped, htexts, otherwiseText_some]
    exact fun condition body otherwise line heq => h ⟨condition, body, otherwise, line, heq⟩

/-- The source text of no part of a tree depends on its lines. -/
theorem Tree.text_mapLines (f : Nat → Nat) :
    (∀ (node : Node) indent, (node.mapLines f).text indent = node.text indent)
      ∧ (∀ (form : Form) indent, (form.mapLines f).text indent = form.text indent)
      ∧ (∀ rescues indent, rescuesText indent (mapLinesRescues f rescues)
          = rescuesText indent rescues)
      ∧ (∀ (clause : Rescue) indent others, rescuesText indent (clause.mapLines f :: others)
          = rescuesText indent (clause :: others))
      ∧ (∀ node indent, text? indent (mapLines? f node) = text? indent node)
      ∧ (∀ nodes, (∀ indent, texts indent (mapLinesAll f nodes) = texts indent nodes)
          ∧ ∀ indent, otherwiseText indent (some (mapLinesAll f nodes))
            = otherwiseText indent (some nodes))
      ∧ (∀ whens indent, whensText indent (mapLinesWhens f whens) = whensText indent whens)
      ∧ (∀ (branch : When) indent others, whensText indent (branch.mapLines f :: others)
          = whensText indent (branch :: others))
      ∧ (∀ nodes, (∀ indent, texts? indent (mapLinesAll? f nodes) = texts? indent nodes)
          ∧ ∀ indent, otherwiseText indent (mapLinesAll? f nodes) = otherwiseText indent nodes)
      ∧ (∀ params indent, paramTexts indent (mapLinesParams f params) = paramTexts indent params)
      ∧ (∀ (param : Param) indent, (param.mapLines f).text indent = param.text indent)
      ∧ (∀ segments indent quote, segmentsText indent quote (mapLinesSegments f segments)
          = segmentsText indent quote segments)
      ∧ (∀ (segment : Segment) indent quote others,
          segmentsText indent quote (segment.mapLines f :: others)
            = segmentsText indent quote (segment :: others)) := by
  -- the motives are read off the statement, one for each kind of part
  apply Node.mapLines.mutual_induct
  case case20 =>
    intro receiver name args safe hreceiver hargs indent
    cases receiver with
    | none => simp only [Form.mapLines, mapLines?, Form.text, hargs]
    | some receiver =>
      have htext := Option.some.inj (hreceiver indent)
      simp only [Form.mapLines, mapLines?, Form.text, hargs, htext,
        Node.needsParensAsReceiver_mapLines]
  case case35 =>
    intro negated condition body otherwise hcondition hbody hotherwise indent
    cases negated <;> simp only [Form.mapLines, Form.text, hcondition, hbody, hotherwise]
  case case58 =>
    intro segment segments hsegment hsegments indent quote
    rw [mapLinesSegments, hsegment]
    cases segment <;> simp only [segmentsText, hsegments]
  case case60 =>
    intro node nodes hnode hnodes
    have htexts : ∀ indent, texts indent (mapLinesAll f (node :: nodes))
        = texts indent (node :: nodes) := by
      intro indent
      simp only [mapLinesAll, texts, hnode, hnodes]
    exact ⟨htexts, fun indent =>
      otherwiseText_mapLinesAll f indent node nodes (hnode indent) (htexts (indent + 1))⟩
  case case68 =>
    intro branch branches hbranch hbranches indent
    rw [mapLinesWhens, hbranch]
    cases branch
    simp only [whensText, hbranches]
  case case70 =>
    intro clause clauses hclause hclauses indent
    rw [mapLinesRescues, hclause]
    cases clause
    simp only [rescuesText, hclauses]
  all_goals
    intros
    simp only [Node.mapLines, Form.mapLines, mapLinesAll, mapLines?, mapLinesAll?,
      Segment.mapLines, mapLinesSegments, When.mapLines, mapLinesWhens, Rescue.mapLines,
      mapLinesRescues, Param.mapLines, mapLinesParams, Node.text, Form.text, texts, text?, texts?,
      segmentsText, whensText, rescuesText, Param.text, paramTexts, mapLinesAll_isEmpty,
      mapLinesParams_isEmpty, Node.labelKey?_mapLines, Node.needsParensAsReceiver_mapLines,
      Node.needsParensAsOperand_mapLines, implies_true, and_self, *]

/-- The source text of a node does not depend on its lines. -/
theorem Node.text_mapLines (f : Nat → Nat) (indent : Nat) (node : Node) :
    (node.mapLines f).text indent = node.text indent :=
  (Tree.text_mapLines f).1 node indent

theorem texts_mapLinesAll (f : Nat → Nat) (indent : Nat) (nodes : List Node) :
    texts indent (mapLinesAll f nodes) = texts indent nodes :=
  ((Tree.text_mapLines f).2.2.2.2.2.1 nodes).1 indent

theorem renderInline_mapLines (f : Nat → Nat) (body : List Node) :
    renderInline (mapLinesAll f body) = renderInline body := by
  unfold renderInline
  rw [texts_mapLinesAll]

/-- The text of a node does not tell its line. -/
theorem Node.render_mapLines (f : Nat → Nat) (node : Node) :
    (node.mapLines f).render = node.render :=
  Node.text_mapLines f 0 node

/-! ### Values -/

/-- The shown text of a template has no lines. -/
theorem interpolatedText_mapLines (f : Nat → Nat) (segments : List Segment) :
    interpolatedText (mapLinesSegments f segments) = interpolatedText segments := by
  induction segments with
  | nil => rfl
  | cons segment others ih =>
    cases segment with
    | text content => simp only [mapLinesSegments, Segment.mapLines, interpolatedText, ih]
    | code body =>
      simp only [mapLinesSegments, Segment.mapLines, interpolatedText, renderInline_mapLines, ih]

mutual

/-- The value of a node does not depend on its lines. -/
theorem Node.decode_mapLines (f : Nat → Nat) :
    ∀ node : Node, (node.mapLines f).decode = node.decode
  | ⟨form, _⟩ => by simp only [Node.mapLines, Node.decode, Form.decode_mapLines f form]
termination_by structural x => x

/-- A value has no lines. -/
theorem Form.decode_mapLines (f : Nat → Nat) (form : Form) :
    (form.mapLines f).decode = form.decode := by
  cases form with
  | template quote segments =>
    cases quote with
    | double => simp only [Form.mapLines, Form.decode, interpolatedText_mapLines]
    | command => rfl
  | call receiver name args safe =>
    have hargs := decodeLast_mapLinesAll f args
    cases args with
    | nil => rfl
    | cons first others => exact hargs
  | index _ args => exact decodeLast_mapLinesAll f args
  | array items => exact decodeLast_mapLinesAll f items
  | hash entries _ => exact decodeLast_mapLinesAll f entries
  | pair _ last | logical _ _ last | binary _ _ last | ternary _ _ last | unary _ last | not last
  | splat last | block last _ _ => exact Node.decode_mapLines f last
  | range _ high _ =>
    cases high with
    | none => rfl
    | some high => exact Node.decode_mapLines f high
  | _ => rfl
termination_by structural form

theorem decodeLast_mapLinesAll (f : Nat → Nat) :
    ∀ nodes : List Node, decodeLast (mapLinesAll f nodes) = decodeLast nodes
  | [] => rfl
  | [node] => by simp only [mapLinesAll, decodeLast, Node.decode_mapLines f node]
  | _ :: second :: others => by
    have hothers := decodeLast_mapLinesAll f (second :: others)
    simp only [mapLinesAll] at hothers
    simp only [mapLinesAll, decodeLast, hothers]
termination_by structural x => x

end

theorem Node.parameter?_mapLines (f : Nat → Nat) (node : Node) :
    (node.mapLines f).parameter? = node.parameter? := by
  obtain ⟨form, line⟩ := node
  cases form with
  | pair key value =>
    obtain ⟨keyForm, keyLine⟩ := key
    cases keyForm with
    | sym name => simp only [Node.mapLines, Form.mapLines, Node.parameter?, Node.decode_mapLines]
    | str name => simp only [Node.mapLines, Form.mapLines, Node.parameter?, Node.decode_mapLines]
    | _ => rfl
  | _ => rfl

/-- The parameters of an action do not depend on lines. -/
theorem decodeArguments_mapLines (f : Nat → Nat) (args : List Node) :
    decodeArguments (mapLinesAll f args) = decodeArguments args := by
  cases args with
  | nil => rfl
  | cons first others =>
    by_cases h : ∃ entries braced, first.form = .hash entries braced
    · obtain ⟨entries, braced, hform⟩ := h
      obtain ⟨form, line⟩ := first
      cases hform
      simp only [mapLinesAll, Node.mapLines, Form.mapLines, decodeArguments, mapLinesAll_eq_map,
        List.filterMap_map]
      congr 4
      funext entry
      exact Node.parameter?_mapLines f entry
    -- nothing but a hash in front is looked into
    · have hscalar : ∀ (node : Node) (nodes : List Node),
          (¬ ∃ entries braced, node.form = .hash entries braced) →
            decodeArguments (node :: nodes) = node.decode := by
        intro node nodes hnode
        unfold decodeArguments
        split
        · next heq => cases heq
        · next entries braced line nodes' heq =>
          cases heq
          exact absurd ⟨entries, braced, rfl⟩ hnode
        · next heq =>
          cases heq
          rfl
      have hmapped : ¬ ∃ entries braced, (first.mapLines f).form = .hash entries braced := by
        rintro ⟨entries, braced, hform⟩
        rw [Node.form_mapLines] at hform
        refine h ?_
        cases hfirst : first.form <;> rw [hfirst] at hform <;> simp [Form.mapLines] at hform
        exact ⟨_, _, rfl⟩
      rw [mapLinesAll, hscalar _ _ hmapped, hscalar _ _ h, Node.decode_mapLines]

/-! ### Documents -/

/-- The event with its line changed; only requests have one. -/
def Event.mapLines (f : Nat → Nat) : Event → Event
  | .request asked => .request { asked with line := f asked.line }
  | event => event

theorem recorded_mapLines (f : Nat → Nat) (events : List Event) :
    recorded (events.map (Event.mapLines f)) = recorded events := by
  induction events with
  | nil => rfl
  | cons event events ih =>
    unfold recorded at ih ⊢
    rw [List.map_cons]
    cases event with
    | request asked => exact ih
    | action | head | description => exact congrArg (_ :: ·) ih

/-- Only a request keeps the line of its call. -/
theorem callEvents_mapLines (f : Nat → Nat) (address : Address) (name : String) (args : List Node)
    (line : Nat) :
    callEvents address name (mapLinesAll f args) (f line)
      = (callEvents address name args line).map (Event.mapLines f) := by
  unfold callEvents
  rw [decodeArguments_mapLines]
  by_cases hdesc : (name == "desc") = true
  · by_cases habsent : (decodeArguments args).isAbsent = true
    · simp [hdesc, habsent]
    · simp [hdesc, habsent, Event.mapLines]
  · cases hpath : importPath? name (decodeArguments args) <;> simp [hdesc, hpath, Event.mapLines]

/-- What a call opens is told by its name and its arguments. -/
theorem opening?_mapLines (f : Nat → Nat) (name : String) (args : List Node) :
    opening? name (mapLinesAll f args) = opening? name args := by
  unfold opening?
  rw [decodeArguments_mapLines]

theorem Node.bareCallName?_mapLines (f : Nat → Nat) (node : Node) :
    (node.mapLines f).bareCallName? = node.bareCallName? := by
  obtain ⟨form, line⟩ := node
  cases form with
  | call receiver name args safe => cases receiver <;> rfl
  | _ => rfl

theorem Node.IsOther.mapLines {node : Node} (h : node.IsOther) (f : Nat → Nat) :
    (node.mapLines f).IsOther := by
  refine ⟨by rw [Node.bareCallName?_mapLines]; exact h.1, ?_⟩
  intro name args safe callLine params body opening hform hopens
  rw [Node.form_mapLines] at hform
  -- only a block comes from a block, and only a call without a receiver from such a call
  cases hnode : node.form <;> rw [hnode] at hform <;> simp [Form.mapLines] at hform
  next call params' body' =>
    obtain ⟨hcall, -, -⟩ := hform
    obtain ⟨callForm, callLine'⟩ := call
    simp only [Node.mapLines, Node.mk.injEq] at hcall
    cases hcallForm : callForm <;> rw [hcallForm] at hcall <;> simp [Form.mapLines] at hcall
    next receiver name' args' safe' =>
      cases receiver with
      | some receiver => simp [LaneScript.mapLines?] at hcall
      | none =>
        obtain ⟨⟨-, rfl, rfl, rfl⟩, -⟩ := hcall
        rw [← opening?_eq_some_iff, opening?_mapLines, opening?_eq_some_iff] at hopens
        rw [hcallForm] at hnode
        exact h.2 _ _ _ _ _ _ opening hnode hopens

/-- The events of a script do not depend on its lines, but for the lines of its requests. -/
theorem scriptEvents_mapLines (f : Nat → Nat) (address : Address) (script : List Node) :
    scriptEvents Node.render address (mapLinesAll f script)
      = (scriptEvents Node.render address script).map (Event.mapLines f) := by
  -- the recursion of the events looks into a block only if its call opens one
  refine scriptEvents.induct
    (fun address node => (node.mapLines f).events Node.render address
      = (node.events Node.render address).map (Event.mapLines f))
    (fun address script => scriptEvents Node.render address (mapLinesAll f script)
      = (scriptEvents Node.render address script).map (Event.mapLines f))
    ?call ?block ?unopened ?other ?nil ?cons address script
  case call =>
    intro address name args safe line
    simp only [Node.mapLines, Form.mapLines, mapLines?, Node.events, callEvents_mapLines]
  case block =>
    intro address name args safe callLine params body line opening hopening hbody
    have hmapped := opening?_mapLines f name args
    rw [hopening] at hmapped
    simp only [Node.mapLines, Form.mapLines, mapLines?, Node.events, hmapped, hopening, hbody,
      List.map_append]
    cases opening <;> rfl
  case unopened =>
    intro address name args safe callLine params body line hnone
    have hother := isOther_block hnone safe callLine params body line
    rw [events_of_isOther hother, events_of_isOther (hother.mapLines f), Node.render_mapLines]
    rfl
  case other =>
    intro address node hcall hblock
    have hother : node.IsOther := Node.isOther_of_ne hcall hblock
    rw [events_of_isOther hother, events_of_isOther (hother.mapLines f), Node.render_mapLines]
    rfl
  case nil =>
    intro address
    rfl
  case cons =>
    intro address node nodes hnode hnodes
    simp only [mapLinesAll, scriptEvents, hnode, hnodes, List.map_append]

/-- The document of a script does not depend on its lines. -/
theorem document_build_mapLines (f : Nat → Nat) (script : List Node) :
    (build (mapLinesAll f script)).document = (build script).document := by
  unfold build
  rw [document_buildWith, document_buildWith, scriptEvents_mapLines, recorded_mapLines]

/-! ### Sameness -/

/-- Every part of a tree is the same as itself. -/
theorem Tree.same_self :
    (∀ node : Node, node.same node) ∧ (∀ form : Form, form.same form)
      ∧ (∀ rescues, sameRescues rescues rescues) ∧ (∀ clause : Rescue, clause.same clause)
      ∧ (∀ node, sameNode? node node) ∧ (∀ nodes, sameNodes nodes nodes)
      ∧ (∀ whens, sameWhens whens whens) ∧ (∀ branch : When, branch.same branch)
      ∧ (∀ nodes, sameNodes? nodes nodes) ∧ (∀ params, sameParams params params)
      ∧ (∀ param : Param, param.same param) ∧ (∀ segments, sameSegments segments segments)
      ∧ (∀ segment : Segment, segment.same segment) := by
  have hfloat : ∀ value : Number.Binary64, value.same value := by
    intro value
    cases value <;> simp [Number.Binary64.same]
  apply Node.mapLines.mutual_induct
  all_goals
    intros
    simp [Node.same, Form.same, sameNodes, sameNode?, sameNodes?, Segment.same, sameSegments,
      When.same, sameWhens, Rescue.same, sameRescues, Param.same, sameParams, *]

theorem Node.same_self (node : Node) : node.same node = true :=
  Tree.same_self.1 node

theorem sameNodes_self (nodes : List Node) : sameNodes nodes nodes = true :=
  Tree.same_self.2.2.2.2.2.1 nodes

/-- The lines of the first tree do not count; those of the second follow by the equations below. -/
theorem Tree.same_mapLines (f : Nat → Nat) :
    (∀ node other : Node, (node.mapLines f).same other = node.same other)
      ∧ (∀ form other : Form, (form.mapLines f).same other = form.same other)
      ∧ (∀ rescues others, sameRescues (mapLinesRescues f rescues) others
          = sameRescues rescues others)
      ∧ (∀ clause other : Rescue, (clause.mapLines f).same other = clause.same other)
      ∧ (∀ node other, sameNode? (mapLines? f node) other = sameNode? node other)
      ∧ (∀ nodes others, sameNodes (mapLinesAll f nodes) others = sameNodes nodes others)
      ∧ (∀ whens others, sameWhens (mapLinesWhens f whens) others = sameWhens whens others)
      ∧ (∀ branch other : When, (branch.mapLines f).same other = branch.same other)
      ∧ (∀ nodes others, sameNodes? (mapLinesAll? f nodes) others = sameNodes? nodes others)
      ∧ (∀ params others, sameParams (mapLinesParams f params) others = sameParams params others)
      ∧ (∀ param other : Param, (param.mapLines f).same other = param.same other)
      ∧ (∀ segments others, sameSegments (mapLinesSegments f segments) others
          = sameSegments segments others)
      ∧ (∀ segment other : Segment, (segment.mapLines f).same other = segment.same other) := by
  -- the recursion of the comparison: two parts of one kind, or parts of different kinds
  apply Node.same.mutual_induct
  all_goals
    intros
    simp only [Node.mapLines, Form.mapLines, mapLinesAll, mapLines?, mapLinesAll?,
      Segment.mapLines, mapLinesSegments, When.mapLines, mapLinesWhens, Rescue.mapLines,
      mapLinesRescues, Param.mapLines, mapLinesParams, Node.same, Form.same, sameNodes, sameNode?,
      sameNodes?, Segment.same, sameSegments, When.same, sameWhens, Rescue.same, sameRescues,
      Param.same, sameParams, *]

/-- Sameness does not look at lines. -/
theorem sameNodes_mapLinesAll (f : Nat → Nat) (nodes others : List Node) :
    sameNodes (mapLinesAll f nodes) others = sameNodes nodes others :=
  (Tree.same_mapLines f).2.2.2.2.2.1 nodes others

/-- The node with every line made zero. -/
def Node.bare (node : Node) : Node :=
  node.mapLines fun _ => 0

/-- The nodes with every line made zero. -/
def bareAll (nodes : List Node) : List Node :=
  mapLinesAll (fun _ => 0) nodes

/-- Nodes that agree without their lines are the same as the same others. -/
theorem sameNodes_congr_of_bareAll_eq {nodes nodes' : List Node}
    (h : bareAll nodes = bareAll nodes') (others : List Node) :
    sameNodes nodes others = sameNodes nodes' others := by
  rw [← sameNodes_mapLinesAll (fun _ => 0) nodes, ← sameNodes_mapLinesAll (fun _ => 0) nodes']
  exact congrArg (sameNodes · others) h

/-- Trees that are equal but for their lines are the same. -/
theorem sameNodes_of_bareAll_eq {nodes others : List Node} (h : bareAll nodes = bareAll others) :
    sameNodes nodes others = true := by
  rw [sameNodes_congr_of_bareAll_eq h, sameNodes_self]

/-- Scripts that agree without their lines come to one document. -/
theorem document_build_eq_of_bareAll_eq {script other : List Node}
    (h : bareAll script = bareAll other) : (build script).document = (build other).document := by
  rw [← document_build_mapLines (fun _ => 0) script, ← document_build_mapLines (fun _ => 0) other]
  exact congrArg (fun script => (build script).document) h

end LaneScript
