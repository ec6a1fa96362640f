import LaneScript.Grammar.Statement

/-!
# From tokens to trees

`Rule.of` gives every nonterminal its rule, and `readAt` ties the rules together by recursion on a
bound.  A rule takes a token before it asks for another nonterminal, so the bound that `parse` sets,
one more than the tokens and the characters of the interpolated code, is never reached.
-/

namespace LaneScript

/-- The rule of each nonterminal, for a reader of its parts. -/
def Rule.of (read : Reader) : Reader
  | .statements stops => statements read stops
  | .modifiers node => modifiers read node
  | .condition => condition read
  | .conditionTail left => conditionTail read left
  | .negation => negation read
  | .expression => expression read
  | .ternary => ternary read
  | .operation levels => operation read levels
  | .operationTail level tighter left => operationTail read level tighter left
  | .signed => signed read
  | .unary => unary read
  | .chain node => chain read node
  | .argument => argument read
  | .argumentValue => argumentValue read
  | .moreArguments => moreArguments read
  | .moreItems close => moreItems read close
  | .moreEntries => moreEntries read
  | .params stop => params read stop
  | .targets => targets read
  | .moreClasses => moreClasses read
  | .rescues => rescues read
  | .whens => whens read
  | .otherwise => otherwise read
  | .constPath path line => constPath read path line

/-- Reads a nonterminal with at most the given number of requests nested in one another. -/
def readAt : Nat → Reader
  | 0, _ => Parser.fail .outOfFuel
  | bound + 1, n => Rule.of (readAt bound) n

/-- How much there is to read in a piece of a string. -/
def StringPart.weight : StringPart → Nat
  | .text _ => 0
  | .code source _ => source.length + 2

/-- How much there is to read at a token: itself and the code in it. -/
def Token.weight : Token → Nat
  | .str parts | .command parts => 1 + parts.foldr (·.weight + ·) 0
  | _ => 1

/-- How much there is to read in some tokens. -/
def tokensWeight (tokens : List Located) : Nat := tokens.foldr (·.token.weight + ·) 0

/-- The statements of a script, from the tokens of its file. -/
def parse (file : String) (tokens : List Located) : Except Failure (List Node) :=
  (Rule.program (readAt (tokensWeight tokens + 1))).run' (.start file tokens [.empty true] 0)

/-- The statements of a script, from its text. -/
def parseText (file source : String) : Except Failure (List Node) := do
  parse file (← lex file source)

end LaneScript
