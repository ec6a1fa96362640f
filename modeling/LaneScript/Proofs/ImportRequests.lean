import LaneScript.Grammar.Parse
import LaneScript.Proofs.DocumentEntries
import LaneScript.Tree.Same

/-!
# The scripts that a script asks for

A script asks for another one where it visits a call of `import`.  `VisitsCalls` lists the calls
that are visited as statements, and `Requests` says which of them are requests, by what their first
argument has to be.

By the documentation it is a string, `IsPath`.  What the builder looks at is the decoded argument,
and decoding reduces an expression to the part of it that looks most like a value.  `ReadsAs` says
by rules which arguments end in a text: a string, a great integer and a string with code do, and so
does any expression whose last part does.  So `import File.join("shared", "Common")` asks for
`Common`, and not every request is a path that the script names, `not_every_request_is_path`.  What
holds is `requests_of_import_calls`.
-/

namespace LaneScript

open List

/-! ### Arguments -/

/-- The expression is reduced to this part of it. -/
inductive ReducesTo (part : Node) : Form → Prop where
  | call {receiver name args} (safe) (h : args.getLast? = some part) :
      ReducesTo part (.call receiver name args safe)
  | index {args} (receiver) (h : args.getLast? = some part) : ReducesTo part (.index receiver args)
  | array {items} (h : items.getLast? = some part) : ReducesTo part (.array items)
  | hash {entries} (braced) (h : entries.getLast? = some part) :
      ReducesTo part (.hash entries braced)
  | pair (key) : ReducesTo part (.pair key part)
  | logical (connective left) : ReducesTo part (.logical connective left part)
  | binary (op left) : ReducesTo part (.binary op left part)
  | ternary (condition whenTrue) : ReducesTo part (.ternary condition whenTrue part)
  | unary (op) : ReducesTo part (.unary op part)
  | not : ReducesTo part (.not part)
  | splat : ReducesTo part (.splat part)
  | block (params body) : ReducesTo part (.block part params body)
  | range (low exclusive) : ReducesTo part (.range low (some part) exclusive)

/-- The expression comes to a text. -/
inductive ReadsAs (text : String) : Node → Prop where
  | str (line : Nat) : ReadsAs text ⟨.str text, line⟩
  | bigInt (line : Nat) : ReadsAs text ⟨.bigInt text, line⟩
  | template {segments} (h : interpolatedText segments = text) (line : Nat) :
      ReadsAs text ⟨.template .double segments, line⟩
  | part {form part} (h : ReducesTo part form) (hpart : ReadsAs text part) (line : Nat) :
      ReadsAs text ⟨form, line⟩

theorem decodeLast_eq {nodes : List Node} {last : Node} (h : nodes.getLast? = some last) :
    decodeLast nodes = last.decode := by
  induction nodes with
  | nil => cases h
  | cons node nodes ih =>
    cases nodes with
    | nil =>
      cases h
      rfl
    | cons next nodes =>
      rw [getLast?_cons_cons] at h
      exact ih h

theorem ReducesTo.decode_eq {part : Node} {form : Form} (h : ReducesTo part form) :
    form.decode = part.decode := by
  cases h with
  | @call receiver name args safe h =>
    cases args with
    | nil => cases h
    | cons arg args => exact decodeLast_eq h
  | index _ h | array h | hash _ h => exact decodeLast_eq h
  | _ => rfl

theorem ReducesTo.sizeOf_lt {part : Node} {form : Form} (h : ReducesTo part form) :
    sizeOf part < sizeOf form := by
  have hlast : ∀ {nodes : List Node}, nodes.getLast? = some part → sizeOf part < sizeOf nodes :=
    fun h => sizeOf_lt_of_mem (mem_of_getLast? h)
  cases h with
  | call _ h | index _ h | array h | hash _ h =>
    have := hlast h
    simp
    omega
  | _ => simp <;> omega

theorem exists_getLast? {nodes : List Node} {text : String} (h : decodeLast nodes = .str text) :
    ∃ last, nodes.getLast? = some last := by
  cases nodes with
  | nil => cases h
  | cons node nodes => exact ⟨_, getLast?_cons⟩

/-- A form whose value is a text holds the text itself or is reduced to a part. -/
theorem exists_reducesTo {form : Form} {text : String} (h : form.decode = .str text) (line : Nat) :
    ReadsAs text ⟨form, line⟩ ∨ ∃ part, ReducesTo part form := by
  -- most forms have no value, or one that is no text
  cases form with
  | str content =>
    cases h
    exact .inl (.str line)
  | bigInt digits =>
    cases h
    exact .inl (.bigInt line)
  | template quote segments =>
    cases quote with
    | double => exact .inl (.template (Value.str.inj h) line)
    | command => cases h
  | call receiver name args safe =>
    cases args with
    | nil => cases h
    | cons arg args => exact .inr ((exists_getLast? h).imp fun _ => .call safe)
  | index receiver args => exact .inr ((exists_getLast? h).imp fun _ => .index receiver)
  | array items => exact .inr ((exists_getLast? h).imp fun _ => .array)
  | hash entries braced => exact .inr ((exists_getLast? h).imp fun _ => .hash braced)
  | pair key value => exact .inr ⟨value, .pair key⟩
  | logical connective left right => exact .inr ⟨right, .logical connective left⟩
  | binary op left right => exact .inr ⟨right, .binary op left⟩
  | ternary condition yes no => exact .inr ⟨no, .ternary condition yes⟩
  | unary op operand => exact .inr ⟨operand, .unary op⟩
  | not operand => exact .inr ⟨operand, .not⟩
  | splat value => exact .inr ⟨value, .splat⟩
  | block call params body => exact .inr ⟨call, .block params body⟩
  | range low high exclusive =>
    cases high with
    | none => cases h
    | some high => exact .inr ⟨high, .range low exclusive⟩
  | atom atom => cases atom <;> cases h
  | _ => cases h

/-- Decoding finds a text exactly in the expressions that come to it. -/
theorem decode_eq_str_iff (node : Node) (text : String) :
    node.decode = .str text ↔ ReadsAs text node := by
  constructor
  · intro h
    -- a form either is the text, or is reduced to a smaller part of it
    induction hsize : sizeOf node using Nat.strong_induction_on generalizing node with
    | h size ih =>
      obtain ⟨form, line⟩ := node
      rcases exists_reducesTo h line with hreads | ⟨part, hpart⟩
      · exact hreads
      · have hlt := hpart.sizeOf_lt
        refine .part hpart (ih (sizeOf part) ?_ part (hpart.decode_eq.symm.trans h) rfl) line
        simp at hsize
        omega
  · intro h
    induction h with
    | str | bigInt => rfl
    | template h => exact congrArg Value.str h
    | part h _ _ ih => exact h.decode_eq.trans ih

/-- The argument is a string, which the script names. -/
def IsPath (text : String) (argument : Node) : Prop := argument.form = .str text

/-- The argument comes to a text and is no hash, which would be a map. -/
def ComesToPath (text : String) (argument : Node) : Prop :=
  ReadsAs text argument ∧ ∀ entries braced, argument.form ≠ .hash entries braced

theorem IsPath.comesToPath {text : String} {argument : Node} (h : IsPath text argument) :
    ComesToPath text argument := by
  obtain ⟨form, line⟩ := argument
  cases h
  exact ⟨.str line, fun _ _ => Form.noConfusion⟩

/-- The parameters of a call are a text exactly if its first argument comes to it. -/
theorem decodeArguments_eq_str_iff {args : List Node} {text : String} :
    decodeArguments args = .str text ↔
      ∃ first rest, args = first :: rest ∧ ComesToPath text first := by
  unfold decodeArguments
  split
  · simp
  -- a hash in front gives a map, and no text comes of it
  next entries braced line rest =>
    refine ⟨Value.noConfusion, ?_⟩
    rintro ⟨first, others, hargs, -, hhash⟩
    cases hargs
    exact absurd rfl (hhash entries braced)
  next first rest hhash =>
    have hform : ∀ entries braced, first.form ≠ .hash entries braced := by
      obtain ⟨form, line⟩ := first
      rintro entries braced rfl
      exact hhash entries braced line rfl
    simp [ComesToPath, decode_eq_str_iff, hform]

/-! ### Calls -/

/-- The calls without a receiver and without a block that are visited as statements, in depth-first
order of the source. -/
inductive VisitsCalls : List Node → List Node → Prop where
  | nil : VisitsCalls [] []
  | call {rest calls} (name args safe line) (hrest : VisitsCalls rest calls) :
      VisitsCalls (⟨.call none name args safe, line⟩ :: rest)
        (⟨.call none name args safe, line⟩ :: calls)
  | block {name args opening body inner rest calls} (hopens : Opens name args opening)
      (hbody : VisitsCalls body inner) (hrest : VisitsCalls rest calls)
      (safe callLine params line) :
      VisitsCalls (⟨.block ⟨.call none name args safe, callLine⟩ params body, line⟩ :: rest)
        (inner ++ calls)
  | other {node rest calls} (hother : node.IsOther) (hrest : VisitsCalls rest calls) :
      VisitsCalls (node :: rest) calls

/-- The requests of some calls: those of `import` whose first argument is a path of the given
kind, each with its line. -/
inductive Requests (path : String → Node → Prop) : List Node → List ImportRequest → Prop where
  | nil : Requests path [] []
  | ask {text first calls requests} (h : path text first) (args safe line)
      (hrest : Requests path calls requests) :
      Requests path (⟨.call none "import" (first :: args) safe, line⟩ :: calls)
        (⟨text, line⟩ :: requests)
  | pass {call calls requests}
      (h : ∀ text first args safe line,
        call = ⟨.call none "import" (first :: args) safe, line⟩ → ¬ path text first)
      (hrest : Requests path calls requests) : Requests path (call :: calls) requests

theorem Requests.append {path : String → Node → Prop} {calls others : List Node}
    {requests more : List ImportRequest} (h : Requests path calls requests)
    (hothers : Requests path others more) :
    Requests path (calls ++ others) (requests ++ more) := by
  induction h with
  | nil => exact hothers
  | ask h args safe line _ ih => exact .ask h args safe line ih
  | pass h _ ih => exact .pass h ih

/-- A kind of paths is as good as another one that is the same for these calls. -/
theorem Requests.congr {path path' : String → Node → Prop} {calls : List Node}
    {requests : List ImportRequest} (h : Requests path calls requests)
    (hpath : ∀ first args safe line, ⟨.call none "import" (first :: args) safe, line⟩ ∈ calls →
      ∀ text, path text first ↔ path' text first) : Requests path' calls requests := by
  induction h with
  | nil => exact .nil
  | ask h args safe line _ ih =>
    refine .ask ((hpath _ args safe line mem_cons_self _).1 h) args safe line (ih ?_)
    exact fun first args safe line h => hpath first args safe line (mem_cons_of_mem _ h)
  | pass h _ ih =>
    refine .pass ?_ (ih ?_)
    · rintro text first args safe line rfl hfirst
      have hsame := hpath first args safe line mem_cons_self text
      exact h text first args safe line rfl (hsame.2 hfirst)
    · exact fun first args safe line h => hpath first args safe line (mem_cons_of_mem _ h)

/-- Every script has a list of visited calls, as it has a walk. -/
theorem exists_visitsCalls (script : List Node) : ∃ calls, VisitsCalls script calls := by
  obtain ⟨trace, hwalk⟩ := exists_walk (fun _ => "") default script
  -- the address changes inside of a block, so the walk may start at any
  generalize (default : Address) = address at hwalk
  induction hwalk with
  | nil => exact ⟨[], .nil⟩
  | silent _ _ ih | description _ _ ih | call _ _ ih =>
    obtain ⟨calls, hrest⟩ := ih
    exact ⟨_, .call _ _ _ _ hrest⟩
  | hook hopens _ _ ihbody ihrest | lane hopens _ _ ihbody ihrest
  | platform hopens _ _ ihbody ihrest =>
    obtain ⟨inner, hbody⟩ := ihbody
    obtain ⟨calls, hrest⟩ := ihrest
    exact ⟨_, .block hopens hbody hrest _ _ _ _⟩
  | code hother _ ih =>
    obtain ⟨calls, hrest⟩ := ih
    exact ⟨calls, .other hother hrest⟩

/-! ### Requests -/

theorem requestsOf_append (events others : List Event) :
    requestsOf (events ++ others) = requestsOf events ++ requestsOf others :=
  filterMap_append

theorem importPath?_eq_some_iff {name : String} {parameters : Value} {path : String} :
    importPath? name parameters = some path ↔
      name = "import" ∧ parameters = .str path := by
  unfold importPath?
  split
  · simp
  next hne =>
    constructor
    · intro h
      cases h
    · rintro ⟨rfl, rfl⟩
      exact absurd rfl (hne path rfl)

/-- A call asks for what its parameters name, if it is an `import`. -/
theorem requestsOf_callEvents (address : Address) (name : String) (args : List Node) (line : Nat) :
    requestsOf (callEvents address name args line) =
      ((importPath? name (decodeArguments args)).map (⟨·, line⟩)).toList := by
  unfold callEvents
  dsimp only
  split
  next hdesc =>
    rw [eq_of_beq hdesc]
    split <;> rfl
  · cases importPath? name (decodeArguments args) <;> rfl

theorem requests_call (address : Address) (name : String) (args : List Node) (safe : Bool)
    (line : Nat) :
    Requests ComesToPath [⟨.call none name args safe, line⟩]
      (requestsOf (callEvents address name args line)) := by
  rw [requestsOf_callEvents]
  cases hpath : importPath? name (decodeArguments args) with
  | some path =>
    obtain ⟨rfl, hargs⟩ := importPath?_eq_some_iff.1 hpath
    obtain ⟨first, rest, rfl, hfirst⟩ := decodeArguments_eq_str_iff.1 hargs
    exact .ask hfirst rest safe line .nil
  | none =>
    -- any text in front would have been a path
    refine .pass ?_ .nil
    intro text first rest safe' line' hcall hfirst
    cases hcall
    rw [importPath?_eq_some_iff.2 ⟨rfl, decodeArguments_eq_str_iff.2 ⟨first, rest, rfl, hfirst⟩⟩]
      at hpath
    cases hpath

/-- The builder's requests are those of the visited calls, in whatever context. -/
theorem VisitsCalls.requests {script calls : List Node} (h : VisitsCalls script calls)
    (render : Node → String) (address : Address) :
    Requests ComesToPath calls (requestsOf (scriptEvents render address script)) := by
  induction h generalizing address with
  | nil => exact .nil
  | call name args safe line _ ih =>
    rw [scriptEvents, requestsOf_append, Node.events]
    exact (requests_call address name args safe line).append (ih address)
  | @block _ _ opening _ _ _ _ hopens _ _ _ _ _ _ ihbody ihrest =>
    rw [scriptEvents, requestsOf_append, Node.events, opening?_eq_some_iff.2 hopens]
    -- what the block opens asks for nothing itself
    have hopening : requestsOf (opening.events address) = [] := by
      cases opening <;> rfl
    dsimp only
    rw [requestsOf_append, hopening]
    exact (ihbody _).append (ihrest address)
  | other hother _ ih =>
    rw [scriptEvents, events_of_isOther hother]
    exact ih address

/-- Every visited call of `import` is an action. -/
theorem VisitsCalls.mem_events {script calls : List Node} (h : VisitsCalls script calls)
    (render : Node → String) (address : Address) {args : List Node} {safe : Bool} {line : Nat}
    (hcall : ⟨.call none "import" args safe, line⟩ ∈ calls) :
    ∃ key, .action key (.call "import" (decodeArguments args)) ∈
      scriptEvents render address script := by
  induction h generalizing address with
  | nil => cases hcall
  | call name args' safe' line' _ ih =>
    rw [scriptEvents, Node.events]
    rcases mem_cons.1 hcall with hcall | hcall
    · cases hcall
      exact ⟨address, mem_append_left _ (mem_append_right _ mem_cons_self)⟩
    · exact (ih address hcall).imp fun _ => mem_append_right _
  | block hopens _ _ safe' callLine params line' ihbody ihrest =>
    rw [scriptEvents, Node.events, opening?_eq_some_iff.2 hopens]
    -- the call is in the body of the block, or behind the block
    rcases mem_append.1 hcall with hcall | hcall
    · exact (ihbody _ hcall).imp fun _ h => mem_append_left _ (mem_append_right _ h)
    · exact (ihrest address hcall).imp fun _ => mem_append_right _
  | other _ _ ih =>
    rw [scriptEvents]
    exact (ih address hcall).imp fun _ => mem_append_right _

/-- An action that comes of a script is in its document. -/
theorem mem_actions_of_mem_events {render : Node → String} {script : List Node} {key : Address}
    {action : Action} (h : .action key action ∈ scriptEvents render ⟨none, none⟩ script) :
    ∃ entry, (buildWith render script).document.get? key = some entry ∧ action ∈ entry.actions := by
  have hactions := Draft.actions_ofEvents (scriptEvents render ⟨none, none⟩ script) key
  have htouched : key ∈ touches (scriptEvents render ⟨none, none⟩ script) :=
    mem_filterMap.2 ⟨_, h, rfl⟩
  rw [if_pos htouched] at hactions
  obtain ⟨entry, hentry, heq⟩ := Option.map_eq_some_iff.1 hactions
  refine ⟨entry, hentry, ?_⟩
  rw [heq]
  exact mem_filterMap.2 ⟨_, h, if_pos rfl⟩

/-- **What a script asks for.**  The requests are those of the visited calls of `import` whose first
argument comes to a text, in order and with their lines.  Where these arguments are strings, they
are the paths that the script names.  All of the calls are actions, whatever their arguments are. -/
theorem requests_of_import_calls (render : Node → String) (script : List Node) :
    ∃ calls, VisitsCalls script calls ∧
      Requests ComesToPath calls (buildWith render script).requests ∧
      ((∀ first args safe line, ⟨.call none "import" (first :: args) safe, line⟩ ∈ calls →
          ∀ text, ComesToPath text first → IsPath text first) →
        Requests IsPath calls (buildWith render script).requests) ∧
      ∀ args safe line, ⟨.call none "import" args safe, line⟩ ∈ calls →
        ∃ key entry, (buildWith render script).document.get? key = some entry ∧
          .call "import" (decodeArguments args) ∈ entry.actions := by
  obtain ⟨calls, hcalls⟩ := exists_visitsCalls script
  have hrequests := hcalls.requests render ⟨none, none⟩
  refine ⟨calls, hcalls, hrequests, fun hpaths => ?_, fun args safe line hcall => ?_⟩
  · refine hrequests.congr fun first args safe line hcall text => ?_
    exact ⟨hpaths first args safe line hcall text, IsPath.comesToPath⟩
  · obtain ⟨key, haction⟩ := hcalls.mem_events render ⟨none, none⟩ hcall
    exact ⟨key, mem_actions_of_mem_events haction⟩

/-- Of a string and an array, the string is a path that the script names. -/
theorem requests_of_import_calls_string :
    ∃ calls, VisitsCalls [⟨.call none "import" [⟨.str "a", 2⟩, ⟨.array [], 2⟩] false, 2⟩] calls ∧
      Requests IsPath calls
        (build [⟨.call none "import" [⟨.str "a", 2⟩, ⟨.array [], 2⟩] false, 2⟩]).requests := by
  obtain ⟨calls, hcalls, -, hpaths, -⟩ := requests_of_import_calls Node.render
    [⟨.call none "import" [⟨.str "a", 2⟩, ⟨.array [], 2⟩] false, 2⟩]
  refine ⟨calls, hcalls, hpaths fun first args safe line hcall text htext => ?_⟩
  cases hcalls with
  | other hother _ => cases hother.1
  | call _ _ _ _ hrest =>
    cases hrest
    cases mem_singleton.1 hcall
    cases htext.1 with
    | str => rfl
    | part h => cases h

/-- `import File.join("shared", "Common")` -/
def joinedImport : Node :=
  ⟨.call none "import" [⟨.call (some ⟨.const none "File", 1⟩) "join"
    [⟨.str "shared", 1⟩, ⟨.str "Common", 1⟩] false, 1⟩] false, 1⟩

theorem eq_call_of_same {receiver : Option Node} {name : String} {args : List Node} {safe : Bool}
    {node : Node} (h : (⟨.call receiver name args safe, 1⟩ : Node).same node = true) :
    ∃ receiver' args' line, node = ⟨.call receiver' name args' safe, line⟩ ∧
      sameNode? receiver receiver' = true ∧ sameNodes args args' = true := by
  obtain ⟨form, line⟩ := node
  unfold Node.same Form.same at h
  split at h
  next receiver' name' args' safe' hform =>
    cases hform
    simp only [Bool.and_eq_true, beq_iff_eq] at h
    obtain ⟨⟨⟨hreceiver, rfl⟩, hargs⟩, rfl⟩ := h
    exact ⟨receiver', args', line, rfl, hreceiver, hargs⟩
  · cases h

theorem eq_singleton_of_same {node : Node} {nodes : List Node}
    (h : sameNodes [node] nodes = true) : ∃ node', nodes = [node'] ∧ node.same node' = true := by
  cases nodes with
  | nil => simp [sameNodes] at h
  | cons node' nodes =>
    simp [sameNodes] at h
    exact ⟨node', by rw [h.2], h.1⟩

/-- A statement that is the same names no path. -/
theorem requests_joinedImport {script calls : List Node} {requests : List ImportRequest}
    (h : sameNodes [joinedImport] script = true) (hcalls : VisitsCalls script calls)
    (hrequests : Requests IsPath calls requests) : requests = [] := by
  obtain ⟨node, rfl, hnode⟩ := eq_singleton_of_same h
  obtain ⟨receiver, args, line, rfl, hreceiver, hargs⟩ := eq_call_of_same hnode
  obtain ⟨arg, rfl, harg⟩ := eq_singleton_of_same hargs
  obtain ⟨receiver', args', line', rfl, -, -⟩ := eq_call_of_same harg
  cases hcalls with
  | other hother _ =>
    -- without a receiver it is visited as a call
    rw [sameNode?, Option.isNone_iff_eq_none] at hreceiver
    subst hreceiver
    cases hother.1
  | call _ _ _ _ hrest =>
    cases hrest
    cases hrequests with
    | ask hpath => cases hpath
    | pass _ hrest =>
      cases hrest
      rfl

/-- **Not every request is a path that the script names:** an argument that is a call is reduced to
its last argument. -/
theorem not_every_request_is_path :
    ¬ ∀ file source script, parseText file source = .ok script →
      ∃ calls, VisitsCalls script calls ∧ Requests IsPath calls (build script).requests := by
  intro hall
  -- the script and its requests are computed, the calls are not
  have hread : ((parseText "Fastfile" "import File.join(\"shared\", \"Common\")").map fun script =>
      (sameNodes [joinedImport] script, (build script).requests)) =
        .ok (true, [⟨"Common", 1⟩]) := by
    decide +kernel
  cases hscript : parseText "Fastfile" "import File.join(\"shared\", \"Common\")" with
  | error failure =>
    rw [hscript] at hread
    cases hread
  | ok script =>
    rw [hscript] at hread
    obtain ⟨hsame, hasked⟩ := Prod.mk.inj (Except.ok.inj hread)
    obtain ⟨calls, hcalls, hrequests⟩ := hall _ _ _ hscript
    rw [requests_joinedImport hsame hcalls hrequests] at hasked
    cases hasked

end LaneScript
