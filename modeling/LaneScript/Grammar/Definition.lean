import LaneScript.Grammar.Block

/-!
# Definitions of methods, classes and modules

Each rule reads the rest of a definition, behind its keyword, with its `end`.  The body of a
definition does not see the local variables around it.
-/

namespace LaneScript.Rule

open LaneScript.Parser

/-- The object that gets the method, before a dot: `self` or a constant. -/
def singleton? (line : Nat) : Parser (Option Node) := do
  if (← peek 1).token != .dot then return none
  let found : Option Node := match (← current).token with
    | .word "self" => some ⟨.atom .selfValue, line⟩
    | .const name => some ⟨.const none name, line⟩
    | _ => none
  if found.isSome then
    advance
    advance
  return found

/-- The name of a method: a name or an operator, with the `=` of a method that assigns. -/
def definedName : Parser String := do
  let name ← match ← next with
    | .word name | .const name => pure name
    | .op operator => pure operator.text
    | other => fail (.expected .methodName other)
  let here ← current
  if here.token == .op .assign && !here.spaced && (← peek 1).token == .lparen then
    advance
    return name ++ "="
  else return name

/-- The parameters of a method, which need no parentheses. -/
def methodParams (read : Reader) : Parser (List Param) := do
  if ← eat .lparen then parenParams read
  else match (← current).token with
    | .newline | .semicolon | .done => return []
    | _ => read (.params .line)

/-- A method. -/
def method (read : Reader) (line : Nat) : Parser Node := do
  let singleton ← singleton? line
  let name ← definedName
  withScope true do
    let params ← methodParams read
    return ⟨.method singleton name params (← bodyToEnd read), line⟩

/-- A constant's name, taken from the current token. -/
def constantName : Parser String := do
  match ← next with
  | .const name => return name
  | other => fail (.expected .constantName other)

/-- The rest of a path of constants. -/
def constPath (read : Reader) (path : Node) (line : Nat) : Parser Node := do
  if ← eat .scope then
    let name ← constantName
    read (.constPath ⟨.const (some path) name, line⟩ line)
  else return path

/-- The path of constants that names a class or a module. -/
def definedPath (read : Reader) : Parser Node := do
  let line ← line
  let name ← constantName
  read (.constPath ⟨.const none name, line⟩ line)

/-- A class. -/
def classDef (read : Reader) (line : Nat) : Parser Node := do
  let path ← definedPath read
  let superclass ←
    if ← eatOp (.binary .less) then pure (some (← read .expression)) else pure none
  let body ← withScope true (bodyToEnd read)
  return ⟨.classDef path superclass body, line⟩

/-- A module. -/
def moduleDef (read : Reader) (line : Nat) : Parser Node := do
  let path ← definedPath read
  let body ← withScope true (bodyToEnd read)
  return ⟨.moduleDef path body, line⟩

end LaneScript.Rule
