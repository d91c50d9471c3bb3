import IndicatorCompiler.Number.Display
import IndicatorCompiler.Script.Syntax
import IndicatorCompiler.Text.Quoted
import IndicatorCompiler.Text.Rendered

/-!
# Printing scripts

Scripts are printed with one statement a line, blocks four blanks further in, and parentheses only
where the strength of an operator asks for them.  The body of a loop or a branch is always printed
in braces.  `level` is the indentation of the line on which a text starts; only blocks inside the
text need it.
-/

namespace IndicatorCompiler.Script

open Text (Rendered)

/-! ## Strength -/

namespace Strength

/-- Anything at all. -/
def lowest : Nat := 0
/-- `a, b` -/
def sequence : Nat := 1
/-- `a = b`, and what can stand between commas. -/
def assign : Nat := 2
/-- `a ? b : c` -/
def conditional : Nat := 3
/-- `-a`, `++a` -/
def unary : Nat := 15
/-- `a++` -/
def update : Nat := 16
/-- What can be assigned to. -/
def target : Nat := 17
/-- `f(a)`, `a.b`, `a[b]` -/
def call : Nat := 18
/-- Names and literals. -/
def primary : Nat := 20

end Strength

/-! ## Pieces -/

/-- Texts with commas between them. -/
def commas (texts : List String) : String := Text.joinWith ", " texts

/-- Fields in braces. -/
def fields : List String → String
  | [] => "\x7b\x7d"
  | texts => "\x7b " ++ commas texts ++ " \x7d"

/-- Lines in braces, the closing one at `level`. -/
def braced (level : Nat) (inner : String) : String :=
  if inner.isEmpty then "\x7b\x7d"
  else "\x7b\n" ++ inner ++ Text.indentation level ++ "\x7d"

/-- A statement on a line of its own. -/
def lineText (level : Nat) (text : String) : String := Text.indentation level ++ text ++ "\n"

/-- A literal. -/
def Literal.rendered : Literal → Rendered
  | num value =>
    ⟨value.literal, if value.less .zero then Strength.unary else Strength.primary⟩
  | str value => ⟨Text.quote value, Strength.primary⟩
  | bool value => ⟨if value then "true" else "false", Strength.primary⟩
  | null => ⟨"null", Strength.primary⟩

/-- An operator in front of its operand.  Words need a blank, and two equal signs would read as one
operator. -/
def unaryText (op : UnaryOp) (operand : String) : String :=
  if op.isWord then op.text ++ " " ++ operand
  else if op = .neg && Text.beginsWith '-' operand || op = .plus && Text.beginsWith '+' operand then
    op.text ++ "(" ++ operand ++ ")"
  else op.text ++ operand

/-- The object of a member access.  A point after a number would belong to the number. -/
def memberBase (base : Expr) (rendered : Rendered) : String :=
  match base with
  | .lit (.num _) => rendered.enclosed
  | _ => rendered.within Strength.call

/-- The callee of `new`.  A call there would take the arguments. -/
def newCallee (callee : Expr) (rendered : Rendered) : String :=
  match callee with
  | .call _ _ => rendered.enclosed
  | _ => rendered.within Strength.call

/-- The body of an arrow.  A brace there would open a block. -/
def arrowBody (body : Expr) (rendered : Rendered) : String :=
  match body with
  | .object _ => "(" ++ rendered.within Strength.assign ++ ")"
  | _ => rendered.within Strength.assign

/-- An expression as a statement.  A brace or `function` there would open a block or a
declaration. -/
def exprStmtText (text : String) : String :=
  if Text.beginsWith '\x7b' text || text.startsWith "function " then
    "(" ++ text ++ ");"
  else text ++ ";"

/-- Whether a property is printed by its name alone. -/
def isShort (key : PropertyKey) (value : Expr) (shorthand : Bool) : Bool :=
  match key, value with
  | .name key, .ident name => shorthand && key == name
  | _, _ => false

/-- How a function without its body starts. -/
def functionHead (name : Option String) (params : List String) (arrow : Bool) : String :=
  let params := "(" ++ commas params ++ ")"
  if arrow then params ++ " => "
  else "function " ++ name.getD "" ++ params ++ " "

/-- The body of a loop or a branch; `text` prints the body as a statement. -/
def bodyText (level : Nat) (body : Stmt) (text : Nat → String) : String :=
  match body with
  | .block _ => text level
  | .empty => "\x7b\x7d"
  | _ => braced level (lineText (level + 1) (text (level + 1)))

/-- What follows `else`; a chain of `if` goes on without braces. -/
def elseText (level : Nat) (alternate : Stmt) (text : Nat → String) : String :=
  match alternate with
  | .ifElse _ _ _ => text level
  | _ => bodyText level alternate text

/-- A part of the head of a counting loop. -/
def headPart : Option String → String
  | none => ""
  | some text => " " ++ text

/-! ## Trees -/

mutual
/-- An expression. -/
def Expr.rendered (level : Nat) : Expr → Rendered
  | .ident name => ⟨name, Strength.primary⟩
  | .lit value => value.rendered
  | .array items => ⟨"[" ++ commas (exprTexts level items) ++ "]", Strength.primary⟩
  | .object properties => ⟨fields (propertyTexts level properties), Strength.primary⟩
  | .function f =>
    ⟨f.text level, match f with
      | ⟨_, _, _, arrow⟩ => if arrow then Strength.assign else Strength.primary⟩
  | .unary op arg => ⟨unaryText op ((arg.rendered level).within Strength.unary), Strength.unary⟩
  | .update op prefixed arg =>
    let inner := (arg.rendered level).within Strength.target
    if prefixed then ⟨op.text ++ inner, Strength.unary⟩ else ⟨inner ++ op.text, Strength.update⟩
  | .binary op left right =>
    let strength := op.precedence
    ⟨(left.rendered level).within strength ++ " " ++ op.text ++ " " ++
      (right.rendered level).within (strength + 1), strength⟩
  | .assign op target value =>
    ⟨(target.rendered level).within Strength.target ++ " " ++ op.text ++ " " ++
      (value.rendered level).within Strength.assign, Strength.assign⟩
  | .conditional test consequent alternate =>
    ⟨(test.rendered level).within (Strength.conditional + 1) ++ " ? " ++
      (consequent.rendered level).within Strength.assign ++ " : " ++
      (alternate.rendered level).within Strength.assign, Strength.conditional⟩
  | .call callee args =>
    ⟨(callee.rendered level).within Strength.call ++ "(" ++ commas (exprTexts level args) ++ ")",
      Strength.call⟩
  | .new callee args =>
    ⟨"new " ++ newCallee callee (callee.rendered level) ++ "(" ++ commas (exprTexts level args) ++
      ")", Strength.call⟩
  | .member base name => ⟨memberBase base (base.rendered level) ++ "." ++ name, Strength.call⟩
  | .index base i =>
    ⟨memberBase base (base.rendered level) ++ "[" ++ (i.rendered level).within Strength.sequence ++
      "]", Strength.call⟩
  | .sequence items => ⟨commas (exprTexts level items), Strength.sequence⟩
  | .spread arg => ⟨"..." ++ (arg.rendered level).within Strength.assign, Strength.assign⟩

/-- Expressions that stand between commas. -/
def exprTexts (level : Nat) : List Expr → List String
  | [] => []
  | e :: rest => (e.rendered level).within Strength.assign :: exprTexts level rest

/-- The properties of an object. -/
def propertyTexts (level : Nat) : List Property → List String
  | [] => []
  | ⟨key, value, shorthand⟩ :: rest =>
    (if isShort key value shorthand then key.text level
      else key.text level ++ ": " ++ (value.rendered level).within Strength.assign) ::
      propertyTexts level rest

/-- The key of a property. -/
def PropertyKey.text (level : Nat) : PropertyKey → String
  | .name name => name
  | .str value => Text.quote value
  | .computed key => "[" ++ (key.rendered level).within Strength.assign ++ "]"

/-- A function. -/
def Function.text (level : Nat) : Function → String
  | ⟨name, params, body, arrow⟩ =>
    functionHead name (patternTexts level params) arrow ++ body.text level

/-- The body of a function. -/
def FunctionBody.text (level : Nat) : FunctionBody → String
  | .block body => braced level (stmtLines (level + 1) body)
  | .expr value => arrowBody value (value.rendered level)

/-- A pattern. -/
def Pattern.text (level : Nat) : Pattern → String
  | .ident name => name
  | .array items => "[" ++ commas (patternItemTexts level items) ++ "]"
  | .object properties => fields (patternPropertyTexts level properties)
  | .withDefault target value =>
    target.text level ++ " = " ++ (value.rendered level).within Strength.assign
  | .rest target => "..." ++ target.text level

/-- Patterns. -/
def patternTexts (level : Nat) : List Pattern → List String
  | [] => []
  | pattern :: rest => pattern.text level :: patternTexts level rest

/-- The elements of an array pattern; a hole is empty. -/
def patternItemTexts (level : Nat) : List (Option Pattern) → List String
  | [] => []
  | none :: rest => "" :: patternItemTexts level rest
  | some pattern :: rest => pattern.text level :: patternItemTexts level rest

/-- The properties of an object pattern.  A target spelled like its key stands alone, and so does a
rest element. -/
def patternPropertyTexts (level : Nat) : List PatternProperty → List String
  | [] => []
  | ⟨key, value⟩ :: rest =>
    (match value with
      | .ident name => if name == key then name else key ++ ": " ++ name
      | .withDefault (.ident name) default =>
        let assigned := name ++ " = " ++ (default.rendered level).within Strength.assign
        if name == key then assigned else key ++ ": " ++ assigned
      | .rest target => "..." ++ target.text level
      | other => key ++ ": " ++ other.text level) :: patternPropertyTexts level rest

/-- A statement, without the blanks in front of it and its line end. -/
def Stmt.text (level : Nat) : Stmt → String
  | .var kind decls => kind.text ++ " " ++ commas (declaratorTexts level decls) ++ ";"
  | .function f => f.text level
  | .ret none => "return;"
  | .ret (some value) => "return " ++ (value.rendered level).within Strength.sequence ++ ";"
  | .ifElse test consequent alternate =>
    "if (" ++ (test.rendered level).within Strength.sequence ++ ") " ++
      bodyText level consequent (fun n => consequent.text n) ++
      (match alternate with
        | none => ""
        | some stmt => " else " ++ elseText level stmt (fun n => stmt.text n))
  | .forLoop init test update body =>
    "for (" ++
      (match init with
        | none => ""
        | some init => init.text level) ++ ";" ++ headPart (exprText? level test) ++ ";" ++
      headPart (exprText? level update) ++ ") " ++ bodyText level body (fun n => body.text n)
  | .forEach each kind pattern right body =>
    "for (" ++
      (match kind with
        | none => ""
        | some kind => kind.text ++ " ") ++ pattern.text level ++ " " ++ each.text ++ " " ++
      (right.rendered level).within Strength.assign ++ ") " ++
      bodyText level body (fun n => body.text n)
  | .whileLoop test body =>
    "while (" ++ (test.rendered level).within Strength.sequence ++ ") " ++
      bodyText level body (fun n => body.text n)
  | .breakLoop => "break;"
  | .continueLoop => "continue;"
  | .block body => braced level (stmtLines (level + 1) body)
  | .expr value => exprStmtText ((value.rendered level).within Strength.sequence)
  | .empty => ";"

/-- Statements on lines of their own. -/
def stmtLines (level : Nat) : List Stmt → String
  | [] => ""
  | stmt :: rest => lineText level (stmt.text level) ++ stmtLines level rest

/-- The bindings of a declaration. -/
def declaratorTexts (level : Nat) : List Declarator → List String
  | [] => []
  | ⟨id, none⟩ :: rest => id.text level :: declaratorTexts level rest
  | ⟨id, some init⟩ :: rest =>
    (id.text level ++ " = " ++ (init.rendered level).within Strength.assign) ::
      declaratorTexts level rest

/-- What a counting loop starts with. -/
def ForInit.text (level : Nat) : ForInit → String
  | .declare kind decls => kind.text ++ " " ++ commas (declaratorTexts level decls)
  | .expr value => (value.rendered level).within Strength.sequence

/-- An expression that may be missing. -/
def exprText? (level : Nat) : Option Expr → Option String
  | none => none
  | some e => some ((e.rendered level).within Strength.sequence)
end

/-- The text of an expression. -/
def Expr.print (e : Expr) : String := (e.rendered 0).within Strength.lowest

/-- The text of a script. -/
def Program.print (program : Program) : String := stmtLines 0 program.body

end IndicatorCompiler.Script
