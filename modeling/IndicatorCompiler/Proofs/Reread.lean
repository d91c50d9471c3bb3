import IndicatorCompiler.Proofs.WellFormed
import IndicatorCompiler.Proofs.Written

/-!
# What is read back

Printing forgets a little: bodies of loops and branches get braces, an infinite literal becomes a
name, a hole at the end of a pattern is lost, and `new` takes the first call behind it.  `reread` is
the tree that the printed text has.  It prints the same, unless the script has one of the few forms
that are not `reprintable`.
-/

namespace IndicatorCompiler.Script

open Text (Rendered)
open Bool (and_eq_true)

/-! ## The tree of the printed text -/

/-- The only literal with another spelling than its own. -/
def Literal.reread : Literal → Expr
  | .num (.infinite false) => .ident "Infinity"
  | value => .lit value

/-- The expression is a call. -/
def Expr.isCall : Expr → Bool
  | .call _ _ => true
  | _ => false

/-- The statements between the braces that a body is printed in. -/
def Stmt.bodyStmts : Stmt → List Stmt
  | .block body => body
  | .empty => []
  | stmt => [stmt]

/-- What follows `else`: a chain of `if` goes on without braces. -/
def Stmt.asElse : Stmt → Stmt
  | .ifElse test consequent alternate => .ifElse test consequent alternate
  | stmt => .block stmt.bodyStmts

mutual
/-- The expression that the printed text is. -/
def Expr.reread : Expr → Expr
  | .ident name => .ident name
  | .lit value => value.reread
  | .array items => .array (rereadExprs items)
  | .object properties => .object (rereadProperties properties)
  | .function f => .function f.reread
  | .unary op arg => .unary op arg.reread
  | .update op prefixed arg => .update op prefixed arg.reread
  | .binary op left right => .binary op left.reread right.reread
  | .assign op target value => .assign op target.reread value.reread
  | .conditional test consequent alternate =>
    .conditional test.reread consequent.reread alternate.reread
  | .call callee args => .call callee.reread (rereadExprs args)
  | .new callee args =>
    if callee.isCall then .new callee.reread (rereadExprs args)
    else callee.reread.newOf (rereadExprs args)
  | .member base name => .member base.reread name
  | .index base i => .index base.reread i.reread
  | .sequence items => .sequence (rereadExprs items)
  | .spread arg => .spread arg.reread

/-- Several expressions. -/
def rereadExprs : List Expr → List Expr
  | [] => []
  | e :: rest => e.reread :: rereadExprs rest

/-- Properties of an object. -/
def rereadProperties : List Property → List Property
  | [] => []
  | ⟨key, value, shorthand⟩ :: rest =>
    ⟨key.reread, value.reread, shorthand⟩ :: rereadProperties rest

/-- The key of a property. -/
def PropertyKey.reread : PropertyKey → PropertyKey
  | .name name => .name name
  | .str value => .str value
  | .computed key => .computed key.reread

/-- A function. -/
def Function.reread : Function → Function
  | ⟨name, params, body, arrow⟩ => ⟨name, rereadPatterns params, body.reread, arrow⟩

/-- The body of a function. -/
def FunctionBody.reread : FunctionBody → FunctionBody
  | .block body => .block (rereadStmts body)
  | .expr value => .expr value.reread

/-- A pattern. -/
def Pattern.reread : Pattern → Pattern
  | .ident name => .ident name
  | .array items => .array (rereadPatternItems items)
  | .object properties => .object (rereadPatternProperties properties)
  | .withDefault target value => .withDefault target.reread value.reread
  | .rest target => .rest target.reread

/-- Several patterns. -/
def rereadPatterns : List Pattern → List Pattern
  | [] => []
  | pattern :: rest => pattern.reread :: rereadPatterns rest

/-- The elements of an array pattern, without a hole at the end. -/
def rereadPatternItems : List (Option Pattern) → List (Option Pattern)
  | [] => []
  | [none] => []
  | none :: rest => none :: rereadPatternItems rest
  | some pattern :: rest => some pattern.reread :: rereadPatternItems rest

/-- Properties of a pattern. -/
def rereadPatternProperties : List PatternProperty → List PatternProperty
  | [] => []
  | ⟨key, value⟩ :: rest => ⟨key, value.reread⟩ :: rereadPatternProperties rest

/-- A statement. -/
def Stmt.reread : Stmt → Stmt
  | .var kind decls => .var kind (rereadDeclarators decls)
  | .function f => .function f.reread
  | .ret value => .ret (rereadOption value)
  | .ifElse test consequent alternate =>
    .ifElse test.reread (.block consequent.reread.bodyStmts) (rereadElse alternate)
  | .forLoop init test update body =>
    .forLoop (rereadInit init) (rereadOption test) (rereadOption update)
      (.block body.reread.bodyStmts)
  | .forEach each kind pattern right body =>
    .forEach each kind pattern.reread right.reread (.block body.reread.bodyStmts)
  | .whileLoop test body => .whileLoop test.reread (.block body.reread.bodyStmts)
  | .breakLoop => .breakLoop
  | .continueLoop => .continueLoop
  | .block body => .block (rereadStmts body)
  | .expr value => .expr value.reread
  | .empty => .empty

/-- What follows `else`. -/
def rereadElse : Option Stmt → Option Stmt
  | none => none
  | some stmt => some stmt.reread.asElse

/-- Several statements. -/
def rereadStmts : List Stmt → List Stmt
  | [] => []
  | stmt :: rest => stmt.reread :: rereadStmts rest

/-- Bindings. -/
def rereadDeclarators : List Declarator → List Declarator
  | [] => []
  | ⟨id, init⟩ :: rest => ⟨id.reread, rereadOption init⟩ :: rereadDeclarators rest

/-- What a loop starts with. -/
def rereadInit : Option ForInit → Option ForInit
  | none => none
  | some (.declare kind decls) => some (.declare kind (rereadDeclarators decls))
  | some (.expr value) => some (.expr value.reread)

/-- An expression, if there is one. -/
def rereadOption : Option Expr → Option Expr
  | none => none
  | some e => some e.reread
end

/-- The script that the printed text is. -/
def Program.reread (program : Program) : Program := ⟨rereadStmts program.body⟩

/-! ## How an expression is printed -/

/-- The binding strength of an expression. -/
def Expr.strength : Expr → Nat
  | .ident _ | .array _ | .object _ => Strength.primary
  | .lit value => value.rendered.strength
  | .function ⟨_, _, _, arrow⟩ => if arrow then Strength.assign else Strength.primary
  | .unary _ _ => Strength.unary
  | .update _ prefixed _ => if prefixed then Strength.unary else Strength.update
  | .binary op _ _ => op.precedence
  | .assign _ _ _ | .spread _ => Strength.assign
  | .conditional _ _ _ => Strength.conditional
  | .call _ _ | .new _ _ | .member _ _ | .index _ _ => Strength.call
  | .sequence _ => Strength.sequence

theorem strength_rendered (level : Nat) (e : Expr) : (e.rendered level).strength = e.strength := by
  cases e with
  | function f => cases f; rfl
  | update op prefixed arg => cases prefixed <;> rfl
  | _ => rfl

/-- The printed text opens with a brace. -/
def Expr.opensBrace : Expr → Bool
  | .object _ => true
  | .member base _ | .index base _ | .call base _ =>
    decide (Strength.call ≤ base.strength) && base.opensBrace
  | .update _ false arg => decide (Strength.target ≤ arg.strength) && arg.opensBrace
  | .binary op left _ => decide (op.precedence ≤ left.strength) && left.opensBrace
  | .assign _ target _ => decide (Strength.target ≤ target.strength) && target.opensBrace
  | .conditional test _ _ => decide (Strength.conditional < test.strength) && test.opensBrace
  | .sequence (first :: _) => decide (Strength.assign ≤ first.strength) && first.opensBrace
  | _ => false

/-- The expression is an object literal. -/
def Expr.isObject : Expr → Bool
  | .object _ => true
  | _ => false

/-- The expression is an infinite literal. -/
def Expr.isInfinite : Expr → Bool
  | .lit (.num (.infinite _)) => true
  | _ => false

/-! ## Scripts that print the same again -/

/-- A key that can stand in front of its colon without quotes: a word, or a number as it is
printed. -/
def standsBare (key : String) : Bool :=
  isName key || match Number.Double.ofLexeme key.toList with
    | .finite false x => x.digits.positional == key
    | _ => false

/-- The pattern is a name, with a default or without one, that needs no key in front of it. -/
def Pattern.standsFor (key : String) : Pattern → Bool
  | .ident name | .withDefault (.ident name) _ => name == key
  | _ => false

mutual
/-- No infinite literal is accessed, no constructor is made by `new` without parentheses, and inside
all is so as well. -/
def Expr.reprintable : Expr → Bool
  | .ident _ | .lit _ => true
  | .array items => exprsReprintable items
  | .object properties => propertiesReprintable properties
  | .function f => f.reprintable
  | .unary _ arg | .update _ _ arg | .spread arg => arg.reprintable
  | .binary _ left right => left.reprintable && right.reprintable
  | .assign _ target value => target.reprintable && value.reprintable
  | .conditional test consequent alternate =>
    test.reprintable && consequent.reprintable && alternate.reprintable
  | .call callee args => callee.reprintable && exprsReprintable args
  | .new callee args =>
    (callee.isCall || !callee.root.isNew) && callee.reprintable && exprsReprintable args
  | .member base _ => !base.isInfinite && base.reprintable
  | .index base i => !base.isInfinite && base.reprintable && i.reprintable
  | .sequence items => exprsReprintable items

/-- The same for several expressions. -/
def exprsReprintable : List Expr → Bool
  | [] => true
  | e :: rest => e.reprintable && exprsReprintable rest

/-- The same for properties. -/
def propertiesReprintable : List Property → Bool
  | [] => true
  | ⟨key, value, _⟩ :: rest => key.reprintable && value.reprintable && propertiesReprintable rest

/-- The same for a key. -/
def PropertyKey.reprintable : PropertyKey → Bool
  | .computed key => key.reprintable
  | _ => true

/-- The same for a function. -/
def Function.reprintable : Function → Bool
  | ⟨_, params, body, _⟩ => paramsReprintable params && body.reprintable

/-- The same for the body of a function. -/
def FunctionBody.reprintable : FunctionBody → Bool
  | .block body => stmtsReprintable body
  | .expr value =>
    (value.isObject || !(decide (Strength.assign ≤ value.strength) && value.opensBrace)) &&
      value.reprintable

/-- No array pattern of two or more elements ends with a hole.  Where a loop assigns to what exists,
keys need no quotes, and no default stands at a name that would stand for its key. -/
def Pattern.reprintable (declared : Bool) : Pattern → Bool
  | .ident _ => true
  | .array items =>
    (items.getLast?.all Option.isSome || decide (items.length ≤ 1)) &&
      patternItemsReprintable declared items
  | .object properties => patternPropertiesReprintable declared properties
  | .withDefault target value => target.reprintable declared && value.reprintable
  | .rest target => target.reprintable declared

/-- The same for parameters. -/
def paramsReprintable : List Pattern → Bool
  | [] => true
  | pattern :: rest => pattern.reprintable true && paramsReprintable rest

/-- The same for the elements of a pattern. -/
def patternItemsReprintable (declared : Bool) : List (Option Pattern) → Bool
  | [] => true
  | none :: rest => patternItemsReprintable declared rest
  | some pattern :: rest => pattern.reprintable declared && patternItemsReprintable declared rest

/-- The same for the properties of a pattern. -/
def patternPropertiesReprintable (declared : Bool) : List PatternProperty → Bool
  | [] => true
  | ⟨key, value⟩ :: rest =>
    (declared || standsBare key && !(value.hasDefault && value.standsFor key)) &&
      value.reprintable declared && patternPropertiesReprintable declared rest

/-- The same for a statement. -/
def Stmt.reprintable : Stmt → Bool
  | .var _ decls => declaratorsReprintable decls
  | .function f => f.reprintable
  | .ret value => optionReprintable value
  | .ifElse test consequent alternate =>
    test.reprintable && consequent.reprintable && elseReprintable alternate
  | .forLoop init test update body =>
    initReprintable init && optionReprintable test && optionReprintable update && body.reprintable
  | .forEach _ kind pattern right body =>
    pattern.reprintable kind.isSome && right.reprintable && body.reprintable
  | .whileLoop test body => test.reprintable && body.reprintable
  | .block body => stmtsReprintable body
  | .expr value => value.reprintable
  | .breakLoop | .continueLoop | .empty => true

/-- The same for what follows `else`. -/
def elseReprintable : Option Stmt → Bool
  | none => true
  | some stmt => stmt.reprintable

/-- The same for several statements. -/
def stmtsReprintable : List Stmt → Bool
  | [] => true
  | stmt :: rest => stmt.reprintable && stmtsReprintable rest

/-- The same for bindings. -/
def declaratorsReprintable : List Declarator → Bool
  | [] => true
  | ⟨id, init⟩ :: rest =>
    id.reprintable true && optionReprintable init && declaratorsReprintable rest

/-- The same for what a loop starts with. -/
def initReprintable : Option ForInit → Bool
  | none => true
  | some (.declare _ decls) => declaratorsReprintable decls
  | some (.expr value) => value.reprintable

/-- The same for an expression, if there is one. -/
def optionReprintable : Option Expr → Bool
  | none => true
  | some e => e.reprintable
end

/-- The printed text prints the same when it is read again. -/
def Program.reprintable (program : Program) : Bool := stmtsReprintable program.body

/-! ## What is read back prints the same -/

theorem Literal.rendered_reread (level : Nat) (value : Literal) :
    value.reread.rendered level = value.rendered := by
  unfold Literal.reread
  split <;> rfl

/-- The expression is a number literal. -/
def Expr.isNumber : Expr → Bool
  | .lit (.num _) => true
  | _ => false

theorem memberBase_eq (base : Expr) (r : Rendered) :
    memberBase base r = if base.isNumber then r.enclosed else r.within Strength.call := by
  cases base with
  | lit value => cases value <;> rfl
  | _ => rfl

theorem newCallee_eq (callee : Expr) (r : Rendered) :
    newCallee callee r = if callee.isCall then r.enclosed else r.within Strength.call := by
  cases callee <;> rfl

theorem arrowBody_eq (body : Expr) (r : Rendered) :
    arrowBody body r = if body.isObject then "(" ++ r.within Strength.assign ++ ")"
      else r.within Strength.assign := by
  cases body <;> rfl

/-- What `new` makes is an access, a call or a construction. -/
theorem newOf_cases (callee : Expr) (args : List Expr) :
    callee.newOf args = .new callee args ∨ ∃ made, callee.newOf args = .call made args := by
  unfold Expr.newOf
  split
  · exact .inr ⟨_, rfl⟩
  · exact .inl rfl

theorem isNumber_reread {e : Expr} (h : e.isInfinite = false) : e.reread.isNumber = e.isNumber := by
  cases e with
  | lit value =>
    rw [Expr.reread]
    unfold Literal.reread
    split
    · cases h
    · rfl
  | new callee args =>
    rw [Expr.reread]
    split
    · rfl
    · rcases newOf_cases callee.reread (rereadExprs args) with hnew | ⟨made, hnew⟩ <;>
        rw [hnew] <;> rfl
  | _ => rfl

theorem isObject_reread (e : Expr) : e.reread.isObject = e.isObject := by
  cases e with
  | lit value =>
    rw [Expr.reread]
    unfold Literal.reread
    split <;> rfl
  | new callee args =>
    rw [Expr.reread]
    split
    · rfl
    · rcases newOf_cases callee.reread (rereadExprs args) with hnew | ⟨made, hnew⟩ <;>
        rw [hnew] <;> rfl
  | _ => rfl

/-- The word in front does not change how the rest is printed. -/
theorem rendered_asNew (level : Nat) {e made : Expr} (h : e.asNew = some made) :
    made.rendered level = ⟨"new " ++ (e.rendered level).text, Strength.call⟩ ∧
      made.isNumber = false := by
  have hstrong {inner : Expr} (hinner : inner.asNew ≠ none) : inner.isNumber = false ∧
        (inner.rendered level).within Strength.call = (inner.rendered level).text := by
    unfold Expr.asNew at hinner
    split at hinner <;> first
      | exact ⟨rfl, rfl⟩
      | exact absurd rfl hinner
  induction e using Expr.suffixes.induct generalizing made with
  | case1 base _ ih | case2 base _ ih =>
    obtain ⟨inner, hinner, rfl⟩ := Option.map_eq_some_iff.mp (show base.asNew.map _ = _ from h)
    obtain ⟨htext, hnumber⟩ := ih hinner
    obtain ⟨hbase, hwithin⟩ := hstrong (show base.asNew ≠ none by simp [hinner])
    have hmade : (inner.rendered level).within Strength.call = "new " ++
      (base.rendered level).text := by
      rw [htext]
      rfl
    refine ⟨?_, rfl⟩
    simp only [Expr.rendered, memberBase_eq, hnumber, hbase, hwithin, hmade, Bool.false_eq_true,
      if_false, String.append_assoc]
  | case3 callee args ih =>
    cases hcallee : callee.asNew with
    | none =>
      obtain rfl : Expr.new callee args = made := by simpa [Expr.asNew, hcallee] using h
      have hcall : callee.isCall = false := by
        cases callee with
        | call _ _ => simp [Expr.asNew] at hcallee
        | _ => rfl
      exact ⟨by simp [Expr.rendered, newCallee_eq, hcall, String.append_assoc], rfl⟩
    | some inner =>
      obtain rfl : Expr.call inner args = made := by simpa [Expr.asNew, hcallee] using h
      obtain ⟨htext, -⟩ := ih hcallee
      obtain ⟨-, hwithin⟩ := hstrong (show callee.asNew ≠ none by simp [hcallee])
      have hmade : (inner.rendered level).within Strength.call = "new " ++
        (callee.rendered level).text := by
        rw [htext]
        rfl
      exact ⟨by simp only [Expr.rendered, hwithin, hmade, String.append_assoc], rfl⟩
  | case4 e hmember hindex hcall =>
    rw [Expr.asNew.eq_def] at h
    split at h <;> simp_all

theorem rendered_newOf (level : Nat) (callee : Expr) (args : List Expr) :
    (callee.newOf args).rendered level =
      ⟨"new " ++ (callee.rendered level).within Strength.call ++ "(" ++
        commas (exprTexts level args) ++ ")", Strength.call⟩ := by
  rw [(rendered_asNew level (asNew_call callee args)).1]
  simp only [Expr.rendered, String.append_assoc]

/-- A body prints in the braces that it is read back in. -/
theorem text_bodyStmts {body} (h : ∀ n, body.reread.text n = body.text n) (level : Nat) :
    (Stmt.block body.reread.bodyStmts).text level = bodyText level body (fun n => body.text n) := by
  have hline {stmt : Stmt} (hbody : body.reread.bodyStmts = [stmt])
      (hstmt : stmt.text (level + 1) = body.text (level + 1)) :
      (Stmt.block body.reread.bodyStmts).text level =
        braced level (lineText (level + 1) (body.text (level + 1))) := by
    rw [hbody, ← hstmt]
    exact congrArg (braced level) String.append_empty
  cases body with
  | block body => exact h level
  | empty => rfl
  | _ => exact hline rfl (h (level + 1))

theorem text_asElse {stmt} (h : ∀ n, stmt.reread.text n = stmt.text n) (level : Nat) :
    elseText level stmt.reread.asElse (fun n => stmt.reread.asElse.text n) =
      elseText level stmt (fun n => stmt.text n) := by
  cases stmt with
  | ifElse test consequent alternate => exact h level
  | _ => exact text_bodyStmts h level

/-- What a counting loop starts with. -/
def initText (level : Nat) : Option ForInit → String
  | none => ""
  | some init => init.text level

theorem text_forLoop {init test update body level}
    (htest : exprText? level (rereadOption test) = exprText? level test)
    (hupdate : exprText? level (rereadOption update) = exprText? level update)
    (hbody : (Stmt.block body.reread.bodyStmts).text level = bodyText level body fun n =>
      body.text n)
    (hinit : initText level (rereadInit init) = initText level init) :
    (Stmt.forLoop init test update body).reread.text level =
      (Stmt.forLoop init test update body).text level := by
  have htext {init : Option ForInit} {test update : Option Expr} {body : Stmt} :
      (Stmt.forLoop init test update body).text level =
        "for (" ++ initText level init ++ ";" ++ headPart (exprText? level test) ++ ";" ++
          headPart (exprText? level update) ++ ") " ++ bodyText level body fun n =>
          body.text n := by
    cases init <;> rfl
  rw [htext, ← htest, ← hupdate, ← hbody, ← hinit]
  exact htext

theorem isShort_false (key : PropertyKey) (value : Expr) : isShort key value false = false := by
  unfold isShort
  split <;> rfl

theorem isShort_reread {key value shorthand}
    (h : shorthand = true → ∃ name, key = .name name ∧ value = .ident name) :
    isShort key.reread value.reread shorthand = isShort key value shorthand := by
  cases shorthand with
  | true =>
    obtain ⟨name, rfl, rfl⟩ := h rfl
    rfl
  | false => rw [isShort_false, isShort_false]

/-- Behind the first element the last one is the same. -/
theorem getLast?_tail {item : Option Pattern} {items : List (Option Pattern)}
    (h : (item :: items).getLast? ≠ some none) : items.getLast? ≠ some none := by
  cases items with
  | nil => simp
  | cons item items => simpa using h

/-- Only a single hole stands at the end of a pattern. -/
theorem eq_hole_or_getLast?_ne {items : List (Option Pattern)}
    (h : (items.getLast?.all Option.isSome || decide (items.length ≤ 1)) = true) :
    items = [none] ∨ items.getLast? ≠ some none := by
  rcases Bool.or_eq_true _ _ ▸ h with hlast | hlength
  · refine .inr fun hnone => ?_
    rw [hnone] at hlast
    cases hlast
  · match items, of_decide_eq_true hlength with
    | [], _ => exact .inr (by simp)
    | [none], _ => exact .inl rfl
    | [some _], _ => exact .inr (by simp)

/-- A property is printed without its key if it is a rest element or stands for the key. -/
theorem patternPropertyTexts_cons (level : Nat) (key : String) (value : Pattern)
    (rest : List PatternProperty) :
    patternPropertyTexts level (⟨key, value⟩ :: rest) =
      (if value.isRest || value.standsFor key then value.text level
        else key ++ ": " ++ value.text level) :: patternPropertyTexts level rest := by
  cases value with
  | ident name => cases h : name == key <;> simp [patternPropertyTexts, Pattern.isRest,
      Pattern.standsFor, Pattern.text, h]
  | withDefault target value =>
    cases target with
    | ident name => cases h : name == key <;> simp [patternPropertyTexts, Pattern.isRest,
        Pattern.standsFor, Pattern.text, h]
    | _ => simp [patternPropertyTexts, Pattern.isRest, Pattern.standsFor, Pattern.text]
  | _ => simp [patternPropertyTexts, Pattern.isRest, Pattern.standsFor, Pattern.text]

theorem isRest_reread (p : Pattern) : p.reread.isRest = p.isRest := by cases p <;> rfl

theorem standsFor_reread (p : Pattern) (key : String) :
    p.reread.standsFor key = p.standsFor key := by
  cases p with
  | withDefault target value => cases target <;> rfl
  | _ => rfl

mutual
theorem rendered_reread : (e : Expr) → {asElement : Bool} → e.WellFormed asElement →
    e.reprintable = true → (level : Nat) → e.reread.rendered level = e.rendered level
  | .ident _, _, _, _, _ => rfl
  | .lit value, _, _, _, level => value.rendered_reread level
  | .array items, _, h, hr, level => by
    simp only [Expr.reread, Expr.rendered, exprTexts_reread items h hr level]
  | .object properties, _, h, hr, level => by
    simp only [Expr.reread, Expr.rendered, propertyTexts_reread properties h hr level]
  | .function ⟨name, params, body, arrow⟩, _, h, hr, level => by
    simp only [Expr.reread, Expr.rendered,
      functionText_reread ⟨name, params, body, arrow⟩ h hr level]
    rfl
  | .unary op arg, _, h, hr, level | .update op prefixed arg, _, h, hr, level => by
    simp only [Expr.reread, Expr.rendered, rendered_reread arg h hr level]
  | .binary op left right, _, h, hr, level => by
    simp only [Expr.reprintable, and_eq_true] at hr
    simp only [Expr.reread, Expr.rendered, rendered_reread left h.1 hr.1 level,
      rendered_reread right h.2 hr.2 level]
  | .assign op target value, _, h, hr, level => by
    simp only [Expr.reprintable, and_eq_true] at hr
    simp only [Expr.reread, Expr.rendered, rendered_reread target h.2.1 hr.1 level,
      rendered_reread value h.2.2 hr.2 level]
  | .conditional test consequent alternate, _, h, hr, level => by
    simp only [Expr.reprintable, and_eq_true] at hr
    simp only [Expr.reread, Expr.rendered, rendered_reread test h.1 hr.1.1 level,
      rendered_reread consequent h.2.1 hr.1.2 level, rendered_reread alternate h.2.2 hr.2 level]
  | .call callee args, _, h, hr, level => by
    simp only [Expr.reprintable, and_eq_true] at hr
    simp only [Expr.reread, Expr.rendered, rendered_reread callee h.1 hr.1 level,
      exprTexts_reread args h.2 hr.2 level]
  | .new callee args, _, h, hr, level => by
    simp only [Expr.reprintable, and_eq_true] at hr
    have hcallee := rendered_reread callee h.1 hr.1.2 level
    have hargs := exprTexts_reread args h.2 hr.2 level
    cases hcall : callee.isCall with
    | true =>
      have hcall' : callee.reread.isCall = true := by
        cases callee with
        | call _ _ => rfl
        | _ => cases hcall
      simp only [Expr.reread, Expr.rendered, newCallee_eq, hcall, hcall', if_true, hcallee, hargs]
    | false =>
      simp only [Expr.reread, hcall, Bool.false_eq_true, if_false, rendered_newOf, hcallee, hargs,
        Expr.rendered, newCallee_eq]
  | .member base name, _, h, hr, level => by
    simp only [Expr.reprintable, and_eq_true, Bool.not_eq_true'] at hr
    simp only [Expr.reread, Expr.rendered, memberBase_eq, isNumber_reread hr.1,
      rendered_reread base h.1 hr.2 level]
  | .index base i, _, h, hr, level => by
    simp only [Expr.reprintable, and_eq_true, Bool.not_eq_true'] at hr
    simp only [Expr.reread, Expr.rendered, memberBase_eq, isNumber_reread hr.1.1,
      rendered_reread base h.1 hr.1.2 level, rendered_reread i h.2 hr.2 level]
  | .sequence items, _, h, hr, level => by
    simp only [Expr.reread, Expr.rendered, exprTexts_reread items h.2 hr level]
  | .spread arg, _, h, hr, level => by
    simp only [Expr.reread, Expr.rendered, rendered_reread arg h.2 hr level]

theorem exprTexts_reread : (es : List Expr) → {asElement : Bool} → exprsWellFormed asElement es →
    exprsReprintable es = true → (level : Nat) →
    exprTexts level (rereadExprs es) = exprTexts level es
  | [], _, _, _, _ => rfl
  | e :: rest, _, h, hr, level => by
    simp only [exprsReprintable, and_eq_true] at hr
    simp only [rereadExprs, exprTexts, rendered_reread e h.1 hr.1 level,
      exprTexts_reread rest h.2 hr.2 level]

theorem propertyTexts_reread : (properties : List Property) → propertiesWellFormed properties →
    propertiesReprintable properties = true → (level : Nat) →
    propertyTexts level (rereadProperties properties) = propertyTexts level properties
  | [], _, _, _ => rfl
  | ⟨key, value, true⟩ :: rest, h, hr, level => by
    simp only [propertiesReprintable, and_eq_true] at hr
    obtain ⟨⟨name, -, rfl, rfl⟩, hrest⟩ := h
    simp only [rereadProperties, propertyTexts, propertyTexts_reread rest hrest hr.2 level]
    rfl
  | ⟨key, value, false⟩ :: rest, h, hr, level => by
    simp only [propertiesReprintable, and_eq_true] at hr
    obtain ⟨⟨hkey, hvalue⟩, hrest⟩ := h
    simp only [rereadProperties, propertyTexts, keyText_reread key hkey hr.1.1 level,
      rendered_reread value hvalue hr.1.2 level, propertyTexts_reread rest hrest hr.2 level,
      isShort_reread (show false = true → _ from nofun)]

theorem keyText_reread : (key : PropertyKey) → key.WellFormed → key.reprintable = true →
    (level : Nat) → key.reread.text level = key.text level
  | .name _, _, _, _ => rfl
  | .str _, _, _, _ => rfl
  | .computed key, h, hr, level => by
    simp only [PropertyKey.reread, PropertyKey.text, rendered_reread key h hr level]

theorem functionText_reread : (f : Function) → f.WellFormed → f.reprintable = true →
    (level : Nat) → f.reread.text level = f.text level
  | ⟨name, params, body, arrow⟩, h, hr, level => by
    simp only [Function.reprintable, and_eq_true] at hr
    simp only [Function.reread, Function.text, patternTexts_reread params h.2.1 hr.1 level,
      bodyText_reread body h.2.2 hr.2 level]

theorem bodyText_reread : (body : FunctionBody) → {arrow : Bool} → body.WellFormed arrow →
    body.reprintable = true → (level : Nat) → body.reread.text level = body.text level
  | .block body, _, h, hr, level => by
    simp only [FunctionBody.reread, FunctionBody.text, stmtLines_reread body h hr (level + 1)]
  | .expr value, _, h, hr, level => by
    simp only [FunctionBody.reprintable, and_eq_true] at hr
    simp only [FunctionBody.reread, FunctionBody.text, arrowBody_eq, isObject_reread,
      rendered_reread value h.2 hr.2 level]

theorem patternText_reread : (p : Pattern) → {declared asElement : Bool} → {key : Option String} →
    p.WellFormed declared asElement key → p.reprintable declared = true → (level : Nat) →
    p.reread.text level = p.text level
  | .ident _, _, _, _, _, _, _ => rfl
  | .array items, _, _, _, h, hr, level => by
    simp only [Pattern.reprintable, and_eq_true] at hr
    rcases eq_hole_or_getLast?_ne hr.1 with rfl | hlast
    · rfl
    · simp only [Pattern.reread, Pattern.text, patternItemTexts_reread items h hr.2 hlast level]
  | .object properties, _, _, _, h, hr, level => by
    simp only [Pattern.reread, Pattern.text, patternPropertyTexts_reread properties h hr level]
  | .withDefault target value, _, _, _, h, hr, level => by
    simp only [Pattern.reprintable, and_eq_true] at hr
    simp only [Pattern.reread, Pattern.text, patternText_reread target h.2.2.1 hr.1 level,
      rendered_reread value h.2.2.2 hr.2 level]
  | .rest target, _, _, _, h, hr, level => by
    simp only [Pattern.reread, Pattern.text, patternText_reread target h.2 hr level]

theorem patternTexts_reread : (params : List Pattern) → paramsWellFormed params →
    paramsReprintable params = true → (level : Nat) →
    patternTexts level (rereadPatterns params) = patternTexts level params
  | [], _, _, _ => rfl
  | p :: rest, h, hr, level => by
    simp only [paramsReprintable, and_eq_true] at hr
    simp only [rereadPatterns, patternTexts, patternText_reread p h.1 hr.1 level,
      patternTexts_reread rest h.2 hr.2 level]

theorem patternItemTexts_reread : (items : List (Option Pattern)) → {declared : Bool} →
    patternItemsWellFormed declared items → patternItemsReprintable declared items = true →
    items.getLast? ≠ some none → (level : Nat) →
    patternItemTexts level (rereadPatternItems items) = patternItemTexts level items
  | [], _, _, _, _, _ => rfl
  | [none], _, _, _, hlast, _ => absurd rfl hlast
  | none :: item :: rest, _, h, hr, hlast, level => by
    have hrest := patternItemTexts_reread (item :: rest) h.2 hr (by simpa using hlast) level
    simp only [rereadPatternItems, patternItemTexts, hrest]
  | some p :: rest, _, h, hr, hlast, level => by
    simp only [patternItemsReprintable, and_eq_true] at hr
    simp only [rereadPatternItems, patternItemTexts, patternText_reread p h.1 hr.1 level,
      patternItemTexts_reread rest h.2 hr.2 (getLast?_tail hlast) level]

theorem patternPropertyTexts_reread : (properties : List PatternProperty) → {declared : Bool} →
    patternPropertiesWellFormed declared properties →
    patternPropertiesReprintable declared properties = true → (level : Nat) →
    patternPropertyTexts level (rereadPatternProperties properties) =
      patternPropertyTexts level properties
  | [], _, _, _, _ => rfl
  | ⟨key, value⟩ :: rest, _, h, hr, level => by
    simp only [patternPropertiesReprintable, and_eq_true] at hr
    simp only [rereadPatternProperties, patternPropertyTexts_cons, isRest_reread, standsFor_reread,
      patternText_reread value h.2.1 hr.1.2 level,
      patternPropertyTexts_reread rest h.2.2 hr.2 level]

theorem stmtText_reread : (stmt : Stmt) → stmt.WellFormed → stmt.reprintable = true →
    (level : Nat) → stmt.reread.text level = stmt.text level
  -- `change` unfolds one statement; the equations of `Stmt.text` take far longer to be made
  | .var kind decls, h, hr, level => by
    change kind.text ++ " " ++ commas (declaratorTexts level (rereadDeclarators decls)) ++ ";" = _
    rw [declaratorTexts_reread decls h.2 hr level]
    rfl
  | .function f, h, hr, level => functionText_reread f h.2 hr level
  | .ret none, _, _, _ => rfl
  | .ret (some value), h, hr, level => by
    change "return " ++ (value.reread.rendered level).within Strength.sequence ++ ";" = _
    rw [rendered_reread value h hr level]
    rfl
  | .ifElse test consequent none, h, hr, level => by
    simp only [Stmt.reprintable, and_eq_true] at hr
    have hbody := text_bodyStmts (stmtText_reread consequent h.2.1 hr.1.2) level
    change "if (" ++ (test.reread.rendered level).within Strength.sequence ++ ") " ++
      (Stmt.block consequent.reread.bodyStmts).text level ++ "" = _
    rw [rendered_reread test h.1 hr.1.1 level, hbody]
    rfl
  | .ifElse test consequent (some alternate), h, hr, level => by
    simp only [Stmt.reprintable, and_eq_true] at hr
    have hbody := text_bodyStmts (stmtText_reread consequent h.2.1 hr.1.2) level
    have helse := text_asElse (stmtText_reread alternate h.2.2 hr.2) level
    change "if (" ++ (test.reread.rendered level).within Strength.sequence ++ ") " ++
      (Stmt.block consequent.reread.bodyStmts).text level ++
      (" else " ++ elseText level alternate.reread.asElse fun n => alternate.reread.asElse.text n) =
      _
    rw [rendered_reread test h.1 hr.1.1 level, hbody, helse]
    rfl
  | .forLoop init test update body, h, hr, level => by
    simp only [Stmt.reprintable, and_eq_true] at hr
    exact text_forLoop (optionText_reread test h.2.1 hr.1.1.2 level)
      (optionText_reread update h.2.2.1 hr.1.2 level)
      (text_bodyStmts (stmtText_reread body h.2.2.2 hr.2) level)
        (initText_reread init h.1 hr.1.1.1 level)
  | .forEach each kind pattern right body, h, hr, level => by
    simp only [Stmt.reprintable, and_eq_true] at hr
    have hbody := text_bodyStmts (stmtText_reread body h.2.2 hr.2) level
    change "for (" ++ _ ++ pattern.reread.text level ++ " " ++ each.text ++ " " ++
      (right.reread.rendered level).within Strength.assign ++ ") " ++
      (Stmt.block body.reread.bodyStmts).text level = _
    rw [patternText_reread pattern h.1 hr.1.1 level,
      rendered_reread right h.2.1 hr.1.2 level, hbody]
    rfl
  | .whileLoop test body, h, hr, level => by
    simp only [Stmt.reprintable, and_eq_true] at hr
    have hbody := text_bodyStmts (stmtText_reread body h.2 hr.2) level
    change "while (" ++ (test.reread.rendered level).within Strength.sequence ++ ") " ++
      (Stmt.block body.reread.bodyStmts).text level = _
    rw [rendered_reread test h.1 hr.1 level, hbody]
    rfl
  | .breakLoop, _, _, _ => rfl
  | .continueLoop, _, _, _ => rfl
  | .block body, h, hr, level => congrArg (braced level) (stmtLines_reread body h hr (level + 1))
  | .expr value, h, hr, level => by
    change exprStmtText ((value.reread.rendered level).within Strength.sequence) = _
    rw [rendered_reread value h hr level]
    rfl
  | .empty, _, _, _ => rfl

theorem stmtLines_reread : (stmts : List Stmt) → stmtsWellFormed stmts →
    stmtsReprintable stmts = true → (level : Nat) →
    stmtLines level (rereadStmts stmts) = stmtLines level stmts
  | [], _, _, _ => rfl
  | stmt :: rest, h, hr, level => by
    simp only [stmtsReprintable, and_eq_true] at hr
    simp only [rereadStmts, stmtLines, stmtText_reread stmt h.1 hr.1 level,
      stmtLines_reread rest h.2 hr.2 level]

theorem declaratorTexts_reread : (decls : List Declarator) → declaratorsWellFormed decls →
    declaratorsReprintable decls = true → (level : Nat) →
    declaratorTexts level (rereadDeclarators decls) = declaratorTexts level decls
  | [], _, _, _ => rfl
  | ⟨id, none⟩ :: rest, h, hr, level => by
    simp only [declaratorsReprintable, and_eq_true] at hr
    simp only [rereadDeclarators, rereadOption, declaratorTexts,
      patternText_reread id h.1 hr.1.1 level, declaratorTexts_reread rest h.2.2 hr.2 level]
  | ⟨id, some init⟩ :: rest, h, hr, level => by
    simp only [declaratorsReprintable, and_eq_true] at hr
    simp only [rereadDeclarators, rereadOption, declaratorTexts,
      patternText_reread id h.1 hr.1.1 level, rendered_reread init h.2.1 hr.1.2 level,
      declaratorTexts_reread rest h.2.2 hr.2 level]

theorem initText_reread : (init : Option ForInit) → initWellFormed init →
    initReprintable init = true →
    (level : Nat) → initText level (rereadInit init) = initText level init
  | none, _, _, _ => rfl
  | some (.declare kind decls), h, hr, level => by
    change kind.text ++ " " ++ commas (declaratorTexts level (rereadDeclarators decls)) = _
    rw [declaratorTexts_reread decls h.2 hr level]
    rfl
  | some (.expr value), h, hr, level => by
    change (value.reread.rendered level).within Strength.sequence = _
    rw [rendered_reread value h hr level]
    rfl

theorem optionText_reread : (e : Option Expr) → optionWellFormed e → optionReprintable e = true →
    (level : Nat) → exprText? level (rereadOption e) = exprText? level e
  | none, _, _, _ => rfl
  | some e, h, hr, level => by simp only [rereadOption, exprText?, rendered_reread e h hr level]
end

theorem Program.print_reread {program : Program} (h : stmtsWellFormed program.body)
    (hr : program.reprintable = true) : program.reread.print = program.print :=
  stmtLines_reread program.body h hr 0

end IndicatorCompiler.Script
