import LaneScript.Proofs.Fragment
import LaneScript.Proofs.TreeLines

/-!
# Calls that are read as constants

A call without arguments is written as its name alone.  If the name starts with a capital, this is
also the text of a constant, and a constant is what it is read as.  `Node.asRead` puts a constant in
the place of each such call of a tree.

* `readFor_asRead` — the tree that comes out has no such call, has the height of the first one and
  is written with the same tokens;
* `same_asRead_iff` — the two trees are the same exactly if the first one had no such call either.
-/

namespace LaneScript

open List

variable {nodes : List Node} {role : Role} {node : Node} {f : Node → Node} {indent : Nat}

mutual

/-- The tree that is read where the given one is written. -/
def Node.asRead : Node → Node
  | ⟨form, line⟩ => ⟨form.asRead, line⟩

/-- The form that is read where the given one is written. -/
def Form.asRead : Form → Form
  | .array items => .array (asReadAll items)
  | .hash entries braced => .hash (asReadAll entries) braced
  | .pair key value => .pair key.asRead value.asRead
  | .call none name args false =>
    if isCapitalized name && args.isEmpty then .const none name
    else .call none name (asReadAll args) false
  | .binary op left right => .binary op left.asRead right.asRead
  | .logical connective left right => .logical connective left.asRead right.asRead
  | .ternary condition whenTrue whenFalse =>
    .ternary condition.asRead whenTrue.asRead whenFalse.asRead
  | .range low high exclusive => .range (asRead? low) (asRead? high) exclusive
  | .block call params body => .block call.asRead params (asReadAll body)
  | form => form

/-- The trees that are read where the given ones are written. -/
def asReadAll : List Node → List Node
  | [] => []
  | node :: nodes => node.asRead :: asReadAll nodes

/-- The tree, if there is one, that is read where the given one is written. -/
def asRead? : Option Node → Option Node
  | none => none
  | some node => some node.asRead

end

@[simp]
theorem asReadAll_eq_map (nodes : List Node) : asReadAll nodes = nodes.map Node.asRead := by
  induction nodes with
  | nil => rfl
  | cons node nodes ih => rw [asReadAll, ih, map_cons]

@[simp]
theorem asRead?_eq_map (node : Option Node) : asRead? node = node.map Node.asRead := by
  cases node <;> rfl

/-- A call keeps being one if it has arguments, and also if its name starts with no capital. -/
theorem asRead_call {name : String} {args : List Node}
    (h : isCapitalized name = false ∨ args ≠ []) (line : Nat) :
    (⟨.call none name args false, line⟩ : Node).asRead =
      ⟨.call none name (args.map Node.asRead) false, line⟩ := by
  have hkept : (isCapitalized name && args.isEmpty) = false := by
    rcases h with h | h
    · rw [h, Bool.false_and]
    · rw [isEmpty_eq_false_iff.2 h, Bool.and_false]
  rw [Node.asRead, Form.asRead, hkept, asReadAll_eq_map]
  rfl

/-- A call of a name with a capital that has no arguments is read as a constant. -/
theorem asRead_constantCall {name : String} (hname : isCapitalized name = true) (line : Nat) :
    (⟨.call none name [] false, line⟩ : Node).asRead = ⟨.const none name, line⟩ := by
  rw [Node.asRead, Form.asRead, hname]
  rfl

/-! ### Trees without such calls -/

theorem map_asRead_eq_self (h : ∀ node ∈ nodes, node.asRead = node) :
    nodes.map Node.asRead = nodes :=
  (map_congr_left h).trans (map_id _)

/-- A tree without such calls is read as itself. -/
theorem asRead_eq_self {capitals : Capitals} (hcalls : capitals ≠ .calls)
    (h : InFragment capitals role node) : node.asRead = node := by
  induction h with
  | atom | int | str | sym | const => rfl
  | array line _ ih => rw [Node.asRead, Form.asRead, asReadAll_eq_map, map_asRead_eq_self ih]
  | hash line _ ih => rw [Node.asRead, Form.asRead, asReadAll_eq_map, map_asRead_eq_self ih]
  | pair line _ _ _ ihkey ihvalue => rw [Node.asRead, Form.asRead, ihkey, ihvalue]
  | @call name args line hname _ ih =>
    have hkept : isCapitalized name = false ∨ args ≠ [] :=
      hname.imp (fun hmethod => hmethod.2.1) fun hconstant hnil => hcalls (hconstant.2.2 hnil)
    rw [asRead_call hkept, map_asRead_eq_self ih]
  | keywordCall line hashLine hname _ _ _ ihargs ihentries =>
    rw [asRead_call (.inr (by simp)), map_append, map_asRead_eq_self ihargs,
      map_singleton, Node.asRead, Form.asRead, asReadAll_eq_map, map_asRead_eq_self ihentries]
  | binary line _ _ _ ihleft ihright => rw [Node.asRead, Form.asRead, ihleft, ihright]
  | logical connective line _ _ ihleft ihright => rw [Node.asRead, Form.asRead, ihleft, ihright]
  | ternary line _ _ _ ihcondition ihtrue ihfalse =>
    rw [Node.asRead, Form.asRead, ihcondition, ihtrue, ihfalse]
  | range exclusive line _ _ _ ihlow ihhigh =>
    rw [Node.asRead, Form.asRead, asRead?_eq_map, asRead?_eq_map, Option.map_congr ihlow,
      Option.map_congr ihhigh, Option.map_id', Option.map_id']
  | statement _ ih => exact ih
  | block callLine line _ _ _ ihcall ihbody =>
    rw [Node.asRead, Form.asRead, ihcall, asReadAll_eq_map, map_asRead_eq_self ihbody]

theorem sameNodes_map_asRead :
    sameNodes (nodes.map Node.asRead) nodes = true ↔
      ∀ node ∈ nodes, node.asRead.same node = true := by
  induction nodes with
  | nil => simp [sameNodes]
  | cons node nodes ih => simp [sameNodes, ih]

theorem sameNode?_map_asRead {node : Option Node} :
    sameNode? (node.map Node.asRead) node = true ↔
      ∀ found ∈ node, found.asRead.same found = true := by
  cases node <;> simp [sameNode?]

theorem same_call (name : String) (args others : List Node) (line : Nat) :
    (⟨.call none name args false, line⟩ : Node).same ⟨.call none name others false, line⟩ =
      sameNodes args others := by
  simp [Node.same, Form.same, sameNode?]

/-- If a tree is the same as what it is read as, it has no such calls. -/
theorem inFragment_constants_of_same (h : InFragment .calls role node)
    (hsame : node.asRead.same node = true) :
    InFragment .constants role node := by
  induction h with
  | atom line hatom => exact .atom line hatom
  | int line hvalue => exact .int line hvalue
  | str content line => exact .str content line
  | sym name line => exact .sym name line
  | const line _ hname => exact .const line (by decide) hname
  | array line _ ih =>
    rw [Node.asRead, Form.asRead, asReadAll_eq_map, Node.same, Form.same] at hsame
    exact .array line fun item hitem => ih item hitem (sameNodes_map_asRead.1 hsame item hitem)
  | hash line _ ih =>
    rw [Node.asRead, Form.asRead, asReadAll_eq_map, Node.same, Form.same] at hsame
    simp only [beq_self_eq_true, Bool.and_true] at hsame
    exact .hash line fun entry hentry => ih entry hentry (sameNodes_map_asRead.1 hsame entry hentry)
  | pair line hquestion _ _ ihkey ihvalue =>
    rw [Node.asRead, Form.asRead, Node.same, Form.same, Bool.and_eq_true] at hsame
    exact .pair line hquestion (ihkey hsame.1) (ihvalue hsame.2)
  | @call name args line hname _ ih =>
    -- The one case where something is lost: no call is the same as a constant.
    have hkept : isCapitalized name = false ∨ args ≠ [] := by
      by_contra hlost
      obtain ⟨hcapital, rfl⟩ := not_or.1 hlost |>.imp Bool.eq_true_of_not_eq_false not_not.1
      rw [asRead_constantCall hcapital] at hsame
      exact absurd hsame (by simp [Node.same, Form.same])
    rw [asRead_call hkept, same_call, sameNodes_map_asRead] at hsame
    refine .call line ?_ fun arg harg => ih arg harg (hsame arg harg)
    refine hname.imp_right fun hconstant => ⟨hconstant.1, by decide, fun hnil => ?_⟩
    exact absurd (hkept.resolve_right (not_not.2 hnil)) (by simp [hconstant.1.2])
  | keywordCall line hashLine hname _ hne _ ihargs ihentries =>
    rw [asRead_call (.inr (by simp)), same_call, sameNodes_map_asRead,
      forall_mem_append, forall_mem_singleton] at hsame
    obtain ⟨hargs, hentries⟩ := hsame
    rw [Node.asRead, Form.asRead, asReadAll_eq_map, Node.same, Form.same] at hentries
    simp only [beq_self_eq_true, Bool.and_true, sameNodes_map_asRead] at hentries
    exact .keywordCall line hashLine (hname.imp_right fun h => ⟨h.1, by decide⟩)
      (fun arg harg => ihargs arg harg (hargs arg harg)) hne
      fun entry hentry => ihentries entry hentry (hentries entry hentry)
  | binary line hop _ _ ihleft ihright =>
    rw [Node.asRead, Form.asRead, Node.same, Form.same] at hsame
    simp only [beq_self_eq_true, Bool.true_and, Bool.and_eq_true] at hsame
    exact .binary line hop (ihleft hsame.1) (ihright hsame.2)
  | logical connective line _ _ ihleft ihright =>
    rw [Node.asRead, Form.asRead, Node.same, Form.same] at hsame
    simp only [beq_self_eq_true, Bool.true_and, Bool.and_eq_true] at hsame
    exact .logical connective line (ihleft hsame.1) (ihright hsame.2)
  | ternary line _ _ _ ihcondition ihtrue ihfalse =>
    rw [Node.asRead, Form.asRead, Node.same, Form.same, Bool.and_eq_true, Bool.and_eq_true] at hsame
    exact .ternary line (ihcondition hsame.1.1) (ihtrue hsame.1.2) (ihfalse hsame.2)
  | range exclusive line hbound _ _ ihlow ihhigh =>
    rw [Node.asRead, Form.asRead, asRead?_eq_map, asRead?_eq_map, Node.same, Form.same] at hsame
    simp only [beq_self_eq_true, Bool.and_true, Bool.and_eq_true, sameNode?_map_asRead] at hsame
    exact .range exclusive line hbound (fun node hnode => ihlow node hnode (hsame.1 node hnode))
      fun node hnode => ihhigh node hnode (hsame.2 node hnode)
  | statement _ ih => exact .statement (ih hsame)
  | block callLine line hname _ _ ihcall ihbody =>
    rw [Node.asRead, Form.asRead, asReadAll_eq_map, Node.same, Form.same] at hsame
    simp only [Bool.and_eq_true, sameNodes_map_asRead] at hsame
    exact .block callLine line hname (ihcall hsame.1.1)
      fun statement hstatement => ihbody statement hstatement (hsame.2 statement hstatement)

/-- **A tree is the same as what it is read as** exactly if no name that starts with a capital is
called in it without arguments. -/
theorem same_asRead_iff (h : InFragment .calls role node) :
    node.asRead.same node = true ↔ InFragment .constants role node := by
  refine ⟨inFragment_constants_of_same h, fun hconstants => ?_⟩
  rw [asRead_eq_self (by decide) hconstants, Node.same_self]

/-! ### What is kept of the other trees -/

/-- What a tree shares with a tree that is read in its place. -/
structure ReadFor (role : Role) (node back : Node) : Prop where
  fragment : InFragment .constants role back
  height : back.height = node.height
  spelled : ∀ indent, back.spelled indent = node.spelled indent

theorem forall_map_asRead (h : ∀ node ∈ nodes, ReadFor role node node.asRead) :
    ∀ node ∈ nodes.map Node.asRead, InFragment .constants role node := by
  simpa using fun node hnode => (h node hnode).fragment

theorem heightOf_map (h : ∀ node ∈ nodes, (f node).height = node.height) :
    heightOf (nodes.map f) = heightOf nodes := by
  induction nodes with
  | nil => rfl
  | cons node nodes ih =>
    obtain ⟨hnode, hnodes⟩ := forall_mem_cons.1 h
    rw [map_cons, heightOf, heightOf, hnode, ih hnodes]

theorem heightOver_map (h : ∀ node ∈ nodes, (f node).height = node.height) :
    heightOver (nodes.map f) = heightOver nodes := by
  induction nodes with
  | nil => rfl
  | cons node nodes ih =>
    obtain ⟨hnode, hnodes⟩ := forall_mem_cons.1 h
    rw [map_cons, heightOver, heightOver, hnode, ih hnodes]

theorem spelledMore_map (h : ∀ node ∈ nodes, (f node).spelled indent = node.spelled indent) :
    spelledMore indent (nodes.map f) = spelledMore indent nodes := by
  induction nodes with
  | nil => rfl
  | cons node nodes ih =>
    obtain ⟨hnode, hnodes⟩ := forall_mem_cons.1 h
    rw [map_cons, spelledMore, spelledMore, hnode, ih hnodes]

theorem spelledList_map (h : ∀ node ∈ nodes, (f node).spelled indent = node.spelled indent)
    (lead : Lead) :
    spelledList indent (nodes.map f) lead = spelledList indent nodes lead := by
  cases nodes with
  | nil => rfl
  | cons node nodes =>
    obtain ⟨hnode, hnodes⟩ := forall_mem_cons.1 h
    rw [map_cons, spelledList, spelledList, hnode, spelledMore_map hnodes]

theorem spelledBody_map (h : ∀ node ∈ nodes, (f node).spelled indent = node.spelled indent)
    (lead : Lead) :
    spelledBody indent (nodes.map f) lead = spelledBody indent nodes lead := by
  induction nodes generalizing lead with
  | nil => rfl
  | cons node nodes ih =>
    obtain ⟨hnode, hnodes⟩ := forall_mem_cons.1 h
    rw [map_cons, spelledBody, spelledBody, hnode, ih hnodes]

theorem height?_map {node : Option Node} (h : ∀ found ∈ node, (f found).height = found.height) :
    height? (node.map f) = height? node := by
  cases node with
  | none => rfl
  | some node => exact h node rfl

theorem spelled?_map {node : Option Node}
    (h : ∀ found ∈ node, (f found).spelled indent = found.spelled indent) (lead : Lead) :
    spelled? indent (node.map f) lead = spelled? indent node lead := by
  cases node with
  | none => rfl
  | some node => exact congrFun (h node rfl) lead

theorem spelled_call_map {args : List Node}
    (h : ∀ arg ∈ args, (f arg).spelled indent = arg.spelled indent) (name : String) (line : Nat) :
    (⟨.call none name (args.map f) false, line⟩ : Node).spelled indent =
      (⟨.call none name args false, line⟩ : Node).spelled indent := by
  funext lead
  rw [Node.spelled, Form.spelled, Node.spelled, Form.spelled, isEmpty_map, spelledList_map h]

theorem form_eq_sym_of_asRead (h : InFragment .calls .value node) {name : String}
    (hsym : node.asRead.form = .sym name) : node.form = .sym name := by
  cases h with
  | @call called args line _ _ =>
    rw [Node.asRead, Form.asRead] at hsym
    split at hsym <;> exact nomatch hsym
  | keywordCall => rw [asRead_call (.inr (by simp))] at hsym; exact nomatch hsym
  | sym => exact hsym
  | _ => exact nomatch hsym

/-- A key is written as a label exactly if the key that is read in its place is. -/
theorem labelKey?_asRead {key : Node} (h : InFragment .calls .value key) :
    key.asRead.labelKey? = key.labelKey? := by
  cases h with
  | @call name args line _ _ =>
    rw [Node.asRead, Form.asRead]
    split <;> rfl
  | keywordCall => rw [asRead_call (.inr (by simp))]; rfl
  | _ => rfl

theorem needsParensAsReceiver_asRead (h : InFragment .calls .value node) :
    node.asRead.needsParensAsReceiver = node.needsParensAsReceiver := by
  cases h with
  | @call name args line _ _ =>
    rw [Node.asRead, Form.asRead]
    split <;> rfl
  | keywordCall => rw [asRead_call (.inr (by simp))]; rfl
  | _ => rfl

/-- **The tree that is read in the place of another** is written like it, is as high as it is, and
has no calls that are read as constants. -/
theorem readFor_asRead (h : InFragment .calls role node) : ReadFor role node node.asRead := by
  induction h with
  | atom line hatom => exact ⟨.atom line hatom, rfl, fun _ => rfl⟩
  | int line hvalue => exact ⟨.int line hvalue, rfl, fun _ => rfl⟩
  | str content line => exact ⟨.str content line, rfl, fun _ => rfl⟩
  | sym name line => exact ⟨.sym name line, rfl, fun _ => rfl⟩
  | const line _ hname => exact ⟨.const line (by decide) hname, rfl, fun _ => rfl⟩
  | array line _ ih =>
    rw [Node.asRead, Form.asRead, asReadAll_eq_map]
    refine ⟨.array line (forall_map_asRead ih), heightOver_map fun item h => (ih item h).height, ?_⟩
    intro indent
    funext lead
    rw [Node.spelled, Form.spelled, Node.spelled, Form.spelled,
      spelledList_map fun item hitem => (ih item hitem).spelled indent]
  | hash line _ ih =>
    rw [Node.asRead, Form.asRead, asReadAll_eq_map]
    refine ⟨.hash line (forall_map_asRead ih), heightOver_map fun item h => (ih item h).height, ?_⟩
    intro indent
    funext lead
    rw [Node.spelled, Form.spelled, Node.spelled, Form.spelled, isEmpty_map,
      spelledList_map fun entry hentry => (ih entry hentry).spelled indent,
      spelledList_map fun entry hentry => (ih entry hentry).spelled indent]
  -- A key that is read as something else was no label before and is none now.
  | @pair key value line hquestion hkey _ ihkey ihvalue =>
    rw [Node.asRead, Form.asRead]
    refine ⟨.pair line (fun name hname => hquestion name (form_eq_sym_of_asRead hkey hname))
      ihkey.fragment ihvalue.fragment, ?_, fun indent => ?_⟩
    · rw [Node.height, Form.height, Node.height, Form.height, ihkey.height, ihvalue.height]
    · funext lead
      rw [Node.spelled, Form.spelled, Node.spelled, Form.spelled, labelKey?_asRead hkey,
        ihkey.spelled, ihvalue.spelled]
  | @call name args line hname _ ih =>
    by_cases hlost : isCapitalized name = true ∧ args = []
    -- Without arguments the call and the constant are both spelled as the name alone.
    · obtain ⟨hcapital, rfl⟩ := hlost
      rw [asRead_constantCall hcapital]
      have hconstant : IsConstantName name :=
        (hname.resolve_left fun hmethod => by simp [hmethod.2.1] at hcapital).1
      refine ⟨.const line (by decide) hconstant, rfl, fun indent => ?_⟩
      funext lead
      rw [Node.spelled, Form.spelled, Node.spelled, Form.spelled, nameToken, if_pos hcapital]
      rfl
    · have hkept : isCapitalized name = false ∨ args ≠ [] := by
        rwa [not_and_or, Bool.not_eq_true] at hlost
      rw [asRead_call hkept]
      refine ⟨.call line ?_ (forall_map_asRead ih), heightOver_map fun arg h => (ih arg h).height,
        fun indent => spelled_call_map (fun arg harg => (ih arg harg).spelled indent) name line⟩
      refine hname.imp_right fun hconstant => ⟨hconstant.1, by decide, fun hnil => ?_⟩
      exact absurd ⟨hconstant.1.2, map_eq_nil_iff.1 hnil⟩ hlost
  | @keywordCall name args entries line hashLine hname _ hne _ ihargs ihentries =>
    have hhash : (⟨.hash entries false, hashLine⟩ : Node).asRead =
        ⟨.hash (entries.map Node.asRead) false, hashLine⟩ := by
      rw [Node.asRead, Form.asRead, asReadAll_eq_map]
    have hheight : ∀ arg ∈ args ++ [⟨.hash entries false, hashLine⟩],
        arg.asRead.height = arg.height := by
      refine forall_mem_append.2 ⟨fun arg harg => (ihargs arg harg).height, ?_⟩
      rw [forall_mem_singleton, hhash]
      exact heightOf_map fun entry hentry => (ihentries entry hentry).height
    have hspelled : ∀ indent, ∀ arg ∈ args ++ [⟨.hash entries false, hashLine⟩],
        arg.asRead.spelled indent = arg.spelled indent := by
      intro indent
      refine forall_mem_append.2 ⟨fun arg harg => (ihargs arg harg).spelled indent, ?_⟩
      rw [forall_mem_singleton, hhash]
      funext lead
      exact spelledList_map (fun entry hentry => (ihentries entry hentry).spelled indent) lead
    rw [asRead_call (.inr (by simp))]
    refine ⟨?_, heightOver_map hheight, fun indent => spelled_call_map (hspelled indent) name line⟩
    rw [map_append, map_singleton, hhash]
    exact .keywordCall line hashLine (hname.imp_right fun h => ⟨h.1, by decide⟩)
      (forall_map_asRead ihargs) (by simpa using hne) (forall_map_asRead ihentries)
  | @binary op left right line hop hleft _ ihleft ihright =>
    rw [Node.asRead, Form.asRead]
    refine ⟨.binary line hop ihleft.fragment ihright.fragment, ?_, fun indent => ?_⟩
    · rw [Node.height, Form.height, Node.height, Form.height, ihleft.height, ihright.height]
    · funext lead
      rw [Node.spelled, Form.spelled, Node.spelled, Form.spelled, ihleft.spelled, ihright.spelled,
        needsParensAsReceiver_asRead hleft]
  | logical connective line _ _ ihleft ihright =>
    rw [Node.asRead, Form.asRead]
    refine ⟨.logical connective line ihleft.fragment ihright.fragment, ?_, fun indent => ?_⟩
    · rw [Node.height, Form.height, Node.height, Form.height, ihleft.height, ihright.height]
    · funext lead
      rw [Node.spelled, Form.spelled, Node.spelled, Form.spelled, ihleft.spelled, ihright.spelled]
  | ternary line _ _ _ ihcondition ihtrue ihfalse =>
    rw [Node.asRead, Form.asRead]
    refine ⟨.ternary line ihcondition.fragment ihtrue.fragment ihfalse.fragment, ?_,
      fun indent => ?_⟩
    · rw [Node.height, Form.height, Node.height, Form.height, ihcondition.height, ihtrue.height,
        ihfalse.height]
    · funext lead
      rw [Node.spelled, Form.spelled, Node.spelled, Form.spelled, ihcondition.spelled,
        ihtrue.spelled, ihfalse.spelled]
  | @range low high exclusive line hbound _ _ ihlow ihhigh =>
    rw [Node.asRead, Form.asRead, asRead?_eq_map, asRead?_eq_map]
    refine ⟨.range exclusive line (by simpa using hbound) ?_ ?_, ?_, fun indent => ?_⟩
    · simpa using fun node hnode => (ihlow node hnode).fragment
    · simpa using fun node hnode => (ihhigh node hnode).fragment
    · rw [Node.height, Form.height, Node.height, Form.height,
        height?_map fun node hnode => (ihlow node hnode).height,
        height?_map fun node hnode => (ihhigh node hnode).height]
    · funext lead
      rw [Node.spelled, Form.spelled, Node.spelled, Form.spelled,
        spelled?_map fun node hnode => (ihlow node hnode).spelled indent,
        spelled?_map fun node hnode => (ihhigh node hnode).spelled indent]
  | statement _ ih => exact ⟨.statement ih.fragment, ih.height, ih.spelled⟩
  | @block name args body callLine line hname _ _ ihcall ihbody =>
    rw [Node.asRead, Form.asRead, asReadAll_eq_map]
    refine ⟨?_, ?_, fun indent => ?_⟩
    -- The name of a call with a block has no capital, so the block keeps its call.
    · have hcall := ihcall.fragment
      rw [asRead_call (.inl hname.2.1)] at hcall ⊢
      exact .block callLine line hname hcall (forall_map_asRead ihbody)
    · exact congrArg₂ max ihcall.height
        (heightOver_map fun statement h => (ihbody statement h).height)
    · funext lead
      rw [Node.spelled, Form.spelled, ihcall.spelled,
        spelledBody_map fun statement h => (ihbody statement h).spelled (indent + 1)]
      rfl

end LaneScript
