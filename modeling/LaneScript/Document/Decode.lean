import LaneScript.Document.Value
import LaneScript.Tree.Render

/-!
# Decoding the arguments of an action

Only the first argument of an action counts: a hash becomes a map, and anything else one value.
Nothing is computed.  A literal is its own value, and any other expression is reduced to the part
of it that looks most like a value: its last argument, element or operand, or its name.
-/

namespace LaneScript

/-- A string with code as plain text, which keeps the source of the code. -/
def interpolatedText : List Segment → String
  | [] => ""
  | .text content :: others => content ++ interpolatedText others
  | .code body :: others => "#\x7b" ++ renderInline body ++ "\x7d" ++ interpolatedText others

mutual

/-- The value of a node. -/
def Node.decode : Node → Value
  | ⟨form, _⟩ => form.decode

/-- The value of a form. -/
def Form.decode : Form → Value
  | .atom .trueValue => .bool true
  | .atom .falseValue => .bool false
  | .int value => .int value
  | .bigInt text => .str text
  | .float value => .float value
  | .str content => .str content
  | .sym name => .symbol name
  | .template .double segments => .str (interpolatedText segments)
  | .localVar name => .symbol name
  | .var sigil name => .symbol (sigil.spell name)
  | .const _ name => .symbol name
  | .call _ name [] _ => .symbol name
  | .call _ _ args _ => decodeLast args
  | .index _ args => decodeLast args
  | .array items => decodeLast items
  | .hash entries _ => decodeLast entries
  | .pair _ value => value.decode
  | .logical _ _ right => right.decode
  | .binary _ _ right => right.decode
  | .ternary _ _ whenFalse => whenFalse.decode
  | .unary _ operand => operand.decode
  | .not operand => operand.decode
  | .splat value => value.decode
  | .block call _ _ => call.decode
  | .range _ (some high) _ => high.decode
  | _ => .absent

/-- The value of the last node. -/
def decodeLast : List Node → Value
  | [] => .absent
  | [node] => node.decode
  | _ :: nodes => decodeLast nodes

end

/-- The key and the value of an entry whose key is a symbol or a string. -/
def Node.parameter? : Node → Option (String × Value)
  | ⟨.pair ⟨.sym key, _⟩ value, _⟩ => some (key, value.decode)
  | ⟨.pair ⟨.str key, _⟩ value, _⟩ => some (key, value.decode)
  | _ => none

/-- The parameters that the arguments of an action stand for. -/
def decodeArguments : List Node → Value
  | [] => .absent
  | ⟨.hash entries _, _⟩ :: _ =>
    .map (OrderedMap.ofList (entries.filterMap Node.parameter?)).entries
  | first :: _ => first.decode

/-! ### Maps inside of values -/

mutual

/-- The value of a node is never a map. -/
theorem Node.isScalar_decode : ∀ node : Node, node.decode.isScalar = true
  | ⟨form, _⟩ => form.isScalar_decode
termination_by structural node => node

/-- The value of a form is never a map: it is a single one, or that of a part of the form. -/
theorem Form.isScalar_decode (form : Form) : form.decode.isScalar = true := by
  cases form with
  | atom atom => cases atom <;> rfl
  | template quote segments => cases quote <;> rfl
  | call receiver name args safe =>
    have hlast := isScalar_decodeLast args
    cases args with
    | nil => rfl
    | cons first others => exact hlast
  | index _ items | array items | hash items _ => exact isScalar_decodeLast items
  | pair _ last | logical _ _ last | binary _ _ last | ternary _ _ last | unary _ last | not last
  | splat last | block last _ _ => exact last.isScalar_decode
  | range _ high _ =>
    cases high with
    | none => rfl
    | some high => exact high.isScalar_decode
  | _ => rfl
termination_by structural form

/-- The value of the last node is never a map. -/
theorem isScalar_decodeLast : ∀ nodes : List Node, (decodeLast nodes).isScalar = true
  | [] => rfl
  | [node] => node.isScalar_decode
  | _ :: second :: others => isScalar_decodeLast (second :: others)
termination_by structural nodes => nodes

end

theorem Node.isScalar_of_parameter? {node : Node} {key : String} {value : Value}
    (h : node.parameter? = some (key, value)) : value.isScalar = true := by
  unfold parameter? at h
  split at h
  case h_3 => cases h
  all_goals
    cases h
    exact Node.isScalar_decode _

/-- The value is a single one, or a map of single ones. -/
def Value.IsFlat : Value → Prop
  | .map entries => ∀ entry ∈ entries, entry.2.isScalar = true
  | _ => True

theorem Value.isFlat_of_isScalar {value : Value} (h : value.isScalar = true) : value.IsFlat := by
  cases value with
  | map entries => cases h
  | _ => trivial

/-- Parameters are flat: the map that a hash becomes holds no map. -/
theorem isFlat_decodeArguments (args : List Node) : (decodeArguments args).IsFlat := by
  unfold decodeArguments
  split
  · trivial
  · intro entry hentry
    obtain ⟨node, -, hnode⟩ := List.mem_filterMap.1 (OrderedMap.mem_ofList hentry)
    exact Node.isScalar_of_parameter? hnode
  next first _ _ => exact Value.isFlat_of_isScalar first.isScalar_decode

end LaneScript
