import IndicatorCompiler.Proofs.LoweredOperators

/-!
# Lowered accesses and calls

An access or a call is written by putting texts behind each other: a point and a name, an offset in
brackets, arguments in parentheses.  If its parts are read again, so is the whole, as the access or
the call of all that stands in front.  But a point behind a numeral that has none is read as part of
the number, and as no semicolon is needed, what should be a member may then be read as a statement
of its own.
-/

namespace IndicatorCompiler.Lowering

open Pine
open Script (Written WrittenBefore WrittenItem endsName endsNumber)
open Text (Rendered)

/-! ## Trees of accesses and calls -/

/-- Arguments, lowered one after another, are read as trees, and their names can be keys. -/
inductive RereadsArguments : Generator → List Argument → List (Option String × Script.Expr) → Prop
  | nil {g} : RereadsArguments g [] []
  | cons {g name x args tree trees} (key : ∀ n ∈ name, Script.isName n = true)
      (first : Rereads g x tree) (rest : RereadsArguments (passed g x) args trees) :
      RereadsArguments g (⟨name, x⟩ :: args) ((name, tree) :: trees)

/-- What a call is given: the receiver of a method, the positional arguments in order, and those
with names in order in one object. -/
def argumentTrees (receiver : List Script.Expr) (args : List (Option String × Script.Expr)) :
    List Script.Expr :=
  let positional := args.filterMap fun (name, tree) => if name.isNone then some tree else none
  let named :=
    args.filterMap fun (name, tree) => name.map fun n => (⟨.name n, tree, false⟩ : Script.Property)
  receiver ++ positional ++ if named.isEmpty then [] else [.object named]

/-- The member that a call goes through.  With type arguments, `new` of some libraries is a
constructor for the type of the elements. -/
def calledMember (library property : String) (typeArgs : List TypeRef) : String :=
  if property = "new" then
    match typeArgs with
    | [type] =>
      if library ∈ typedConstructors ∧ type.array = false ∧ type.name ∈ primitiveTypes then
        "new_" ++ type.name
      else "new"
    | _ => "new"
  else property

/-- A declared method is called on something that is no library. -/
def callsMethod (g : Generator) (base : Expr) (property : String) : Bool :=
  g.methods.contains property && !isLibrary g base

/-- The state after a name has been referred to. -/
def referred (g : Generator) (name : String) : Generator := ((reference name).run g).2

/-- Lowered in the state `g`, the parts of an access or a call are read again, and `tree` is the
access or the call of what they are read as. -/
inductive Applies (g : Generator) : Expr → Script.Expr → Prop
  | member {base property b} (hbase : Rereads g base b)
    (hproperty : Script.isName property = true) :
      Applies g (.member base property) (.member b property)
  | history {target offset t o} (htarget : Rereads g target t)
      (hoffset : Rereads (passed g target) offset o) :
      Applies g (.history target offset) (.index t o)
  /-- A method takes the object as its first argument. -/
  | method {base property typeArgs args b trees} (hmethod : callsMethod g base property = true)
      (hbase : Rereads g base b) (hproperty : Script.BindingName (bindingName property))
      (hargs : RereadsArguments (referred (passed g base) property) args trees) :
      Applies g (.call (.member base property) typeArgs args)
        (.call (.ident (bindingName property)) (argumentTrees [b] trees))
  | memberCall {base property typeArgs args b trees} (hmethod : callsMethod g base property = false)
      (hbase : Rereads g base b) (hproperty : Script.isName property = true)
      (hargs : RereadsArguments (passed g base) args trees) :
      Applies g (.call (.member base property) typeArgs args)
        (.call (.member b
          (calledMember ((rendering g base).within Strength.call) property typeArgs))
          (argumentTrees [] trees))
  | call {callee typeArgs args c trees} (hmember : ∀ base property, callee ≠ .member base property)
      (hcallee : Rereads g callee c) (hargs : RereadsArguments (passed g callee) args trees) :
      Applies g (.call callee typeArgs args) (.call c (argumentTrees [] trees))

/-- A point is written behind a numeral that has none. -/
def pointsBehindWhole (g : Generator) : Expr → Bool
  | .member base _ => isWhole base
  | .call (.member base property) _ _ => !callsMethod g base property && isWhole base
  | _ => false

/-! ## Arguments -/

/-- The text of an argument is read as a tree, and its name can be a key. -/
def WrittenArgument (text : Option String × String) (tree : Option String × Script.Expr) : Prop :=
  text.1 = tree.1 ∧ (∀ n ∈ tree.1, Script.isName n = true) ∧ Written 2 text.2 tree.2

/-- The texts of arguments. -/
def argumentTexts (g : Generator) (args : List Argument) : List (Option String × String) :=
  (((lowerArguments args).mapM (·.text) : Gen (List (Option String × String))).run g).1

theorem RereadsArguments.texts {g args trees} (h : RereadsArguments g args trees) :
    List.Forall₂ WrittenArgument (argumentTexts g args) trees := by
  induction h with
  | nil => exact .nil
  | @cons g name x args tree trees key first rest ih =>
    have hcons : argumentTexts g (⟨name, x⟩ :: args) =
        (name, (rendering g x).within Strength.argument) :: argumentTexts (passed g x) args := by
      change ((List.mapM _ (⟨name, lowerExpr x⟩ :: lowerArguments args) : Gen _).run g).1 = _
      rw [List.mapM_cons]
      rfl
    rw [hcons]
    exact .cons ⟨rfl, key, first.value (by decide)⟩ ih

section

variable {texts : List (Option String × String)} {trees : List (Option String × Script.Expr)}

theorem positional_written (h : List.Forall₂ WrittenArgument texts trees) : List.Forall₂ (Written 2)
      (texts.filterMap fun (name, value) => if name.isNone then some value else none)
      (trees.filterMap fun (name, tree) => if name.isNone then some tree else none) := by
  refine List.rel_filterMap ?_ h
  rintro ⟨name, value⟩ ⟨_, tree⟩ ⟨rfl, -, hvalue⟩
  cases name with
  | none => exact .some hvalue
  | some name => exact .none

theorem named_written (h : List.Forall₂ WrittenArgument texts trees) :
    List.Forall₂ (WrittenItem .rBrace Script.Grammar.property)
      ((texts.filterMap fun (name, value) => name.map fun n => (n, value)).map
        fun (name, value) => name ++ ": " ++ value)
      (trees.filterMap fun (name, tree) =>
        name.map fun n => (⟨.name n, tree, false⟩ : Script.Property)) := by
  rw [List.map_filterMap]
  refine List.rel_filterMap ?_ h
  rintro ⟨name, value⟩ ⟨_, tree⟩ ⟨rfl, hkey, hvalue⟩
  cases name with
  | none => exact .none
  | some name => exact .some ((Script.writtenKey_name (hkey name rfl)).property hvalue)

/-- The named arguments are one object, if there are any. -/
theorem last_written {fields properties}
    (h : List.Forall₂ (WrittenItem .rBrace Script.Grammar.property)
      (fields.map fun (name, value) => name ++ ": " ++ value) properties) :
    List.Forall₂ (Written 2) (if fields.isEmpty then [] else [fieldsText fields])
      (if properties.isEmpty then [] else [.object properties]) := by
  cases fields with
  | nil =>
    cases h
    exact .nil
  | cons field fields =>
    cases properties with
    | nil => cases h
    | cons property properties =>
      have hobject := (Script.prints_object h).writtenBefore.mono Script.terminates_endsName
        (show 2 ≤ Script.Strength.primary by decide)
      exact .cons hobject .nil

theorem arguments_written (h : List.Forall₂ WrittenArgument texts trees) {receiver receiver'}
    (hreceiver : List.Forall₂ (Written 2) receiver receiver') :
    ∃ items, argumentsText receiver texts = Script.commas items ∧
      List.Forall₂ (WrittenItem .rParen Script.Grammar.element) items
      (argumentTrees receiver' trees) := by
  have hall := List.rel_append (List.rel_append hreceiver (positional_written h))
    (last_written (named_written h))
  exact ⟨_, rfl, hall.imp fun _ _ hitem => Written.element hitem rfl rfl⟩

end

/-! ## Accesses and calls -/

section

variable {g : Generator} {base callee : Expr} {property : String} {typeArgs : List TypeRef}
  {args : List Argument} {b c : Script.Expr} {trees : List (Option String × Script.Expr)}

/-- A call of what has been written in front of the parentheses. -/
theorem rereads_applied {x text receiver receiver' g'}
    (hx : rendering g x = ⟨text ++ "(" ++ argumentsText receiver (argumentTexts g' args) ++ ")",
      Strength.call⟩)
    (hwhole : isWhole x = false) (htext : WrittenBefore endsNumber 18 text c)
    (hreceiver : List.Forall₂ (Written 2) receiver receiver')
    (hargs : RereadsArguments g' args trees) :
    Rereads g x (.call c (argumentTrees receiver' trees)) := by
  obtain ⟨items, hitems, hwritten⟩ := arguments_written hargs.texts hreceiver
  rw [hitems] at hx
  exact rereads_access hx hwhole (htext.call hwritten)

theorem Rereads.member (hbase : Rereads g base b) (hwhole : isWhole base = false)
    (hproperty : Script.isName property = true) :
    Rereads g (.member base property) (.member b property) := by
  have hrendering : rendering g (.member base property) =
      ⟨(rendering g base).within Strength.call ++ "." ++ property, Strength.call⟩ := rfl
  exact rereads_access hrendering rfl ((hbase.object hwhole).member hproperty)

theorem Rereads.call (hmember : ∀ base property, callee ≠ .member base property)
    (hcallee : Rereads g callee c) (hargs : RereadsArguments (passed g callee) args trees) :
    Rereads g (.call callee typeArgs args) (.call c (argumentTrees [] trees)) := by
  have hrendering : rendering g (.call callee typeArgs args) =
      ⟨(rendering g callee).within Strength.call ++ "(" ++
        argumentsText [] (argumentTexts (passed g callee) args) ++ ")", Strength.call⟩ := by
    rw [rendering, lowerExpr_call hmember]
    rfl
  exact rereads_applied hrendering rfl hcallee.base .nil hargs

theorem Rereads.methodCall (hbase : Rereads g base b) (hmethod : callsMethod g base property = true)
    (hproperty : Script.BindingName (bindingName property))
    (hargs : RereadsArguments (referred (passed g base) property) args trees) :
    Rereads g (.call (.member base property) typeArgs args)
      (.call (.ident (bindingName property)) (argumentTrees [b] trees)) := by
  have hrendering : rendering g (.call (.member base property) typeArgs args) =
      ⟨bindingName property ++ "(" ++ argumentsText [(rendering g base).within Strength.argument]
          (argumentTexts (referred (passed g base) property) args) ++ ")", Strength.call⟩ := by
    change ((renderMemberCall base (lowerExpr base) property typeArgs (lowerArguments args)).run
      g).1 = _
    simp only [renderMemberCall, StateT.run_bind, StateT.run_get, pure_bind]
    rw [if_pos (show (g.methods.contains property && !isLibrary g base) = true from hmethod)]
    rfl
  have hcallee := (Script.prints_ident hproperty.1 hproperty.2).writtenBefore.mono
    Script.terminates_endsName (show 18 ≤ Script.Strength.primary by decide)
  exact rereads_applied hrendering rfl hcallee (.cons (hbase.value (by decide)) .nil) hargs

/-- What stands in front of the parentheses of a call through a member. -/
theorem memberText_eq (library property : String) (typeArgs : List TypeRef) :
    (if property == "new" && !typeArgs.isEmpty then constructorText library typeArgs
      else library ++ "." ++ property) = library ++ "." ++
        calledMember library property typeArgs := by
  have hnew : library ++ ".new" = library ++ "." ++ "new" := by
    rw [String.append_assoc]
    rfl
  by_cases h : property = "new"
  · subst h
    match typeArgs with
    | [] => rfl
    | [type] =>
      have htyped : (library ∈ typedConstructors && !type.array && type.name ∈
        primitiveTypes) = true ↔
          library ∈ typedConstructors ∧ type.array = false ∧ type.name ∈ primitiveTypes := by
        simp [and_assoc]
      change (if _ then library ++ ".new_" ++ type.name else library ++ ".new") =
        library ++ "." ++ if _ then "new_" ++ type.name else "new"
      split
      · rename_i hlibrary
        rw [if_pos (htyped.mp hlibrary), show ".new_" = "." ++ "new_" from rfl]
        simp only [String.append_assoc]
      · rename_i hlibrary
        rw [if_neg (mt htyped.mpr hlibrary), hnew]
    | _ :: _ :: _ => exact hnew
  · simp [calledMember, h]

/-- The member that a call goes through is a name. -/
theorem isName_calledMember (library : String) (typeArgs : List TypeRef)
    (hproperty : Script.isName property = true) :
    Script.isName (calledMember library property typeArgs) = true := by
  have hconstructor : ∀ type ∈ primitiveTypes, Script.isName ("new_" ++ type) = true := by decide
  unfold calledMember
  split
  · split
    · split
      · exact hconstructor _ (by simp_all)
      · rfl
    · rfl
  · exact hproperty

theorem Rereads.memberCall (hbase : Rereads g base b)
    (hmethod : callsMethod g base property = false)
    (hwhole : isWhole base = false) (hproperty : Script.isName property = true)
    (hargs : RereadsArguments (passed g base) args trees) :
    Rereads g (.call (.member base property) typeArgs args)
      (.call (.member b (calledMember ((rendering g base).within Strength.call) property typeArgs))
        (argumentTrees [] trees)) := by
  have hrendering : rendering g (.call (.member base property) typeArgs args) =
      ⟨(rendering g base).within Strength.call ++ "." ++
        calledMember ((rendering g base).within Strength.call) property typeArgs ++ "(" ++
        argumentsText [] (argumentTexts (passed g base) args) ++ ")", Strength.call⟩ := by
    change ((renderMemberCall base (lowerExpr base) property typeArgs (lowerArguments args)).run
      g).1 = _
    simp only [renderMemberCall, StateT.run_bind, StateT.run_get, pure_bind]
    rw [if_neg (show ¬(g.methods.contains property && !isLibrary g base) = true from
      ne_true_of_eq_false hmethod), ← memberText_eq]
    simp only [StateT.run_bind]
    split <;> rfl
  refine rereads_applied hrendering rfl ?_ .nil hargs
  exact ((hbase.object hwhole).member (isName_calledMember _ typeArgs hproperty)).mono
    Script.terminates_endsName (Nat.le_refl 18)

end

/-- An access or a call that puts no point behind a whole numeral is read again. -/
theorem Applies.rereads {g x tree} (h : Applies g x tree) (hpoint : pointsBehindWhole g x = false) :
    Rereads g x tree := by
  cases h with
  | member hbase hproperty => exact hbase.member hpoint hproperty
  | history htarget hoffset => exact htarget.history hoffset
  | method hmethod hbase hproperty hargs => exact hbase.methodCall hmethod hproperty hargs
  | memberCall hmethod hbase hproperty hargs =>
    exact hbase.memberCall hmethod (by simpa [pointsBehindWhole, hmethod] using hpoint)
      hproperty hargs
  | call hmember hcallee hargs => exact hcallee.call hmember hargs

/-- Where a value is declared, its text is the whole value. -/
theorem Rereads.declared {g x tree} (h : Rereads g x tree) {name}
    (hname : Script.BindingName name) :
    Script.Program.ofSource ("let " ++ name ++ " = " ++ ((lowerExpr x).text.run g).1 ++ ";") =
      .ok ⟨[.var .lexical [⟨.ident name, some tree⟩]]⟩ := by
  have hvalue : Written 2 ((lowerExpr x).text.run g).1 tree :=
    h.value (show Strength.lowest ≤ Strength.ternary by decide)
  have hdeclarator := (Script.writtenTarget_ident hname.1 hname.2).initialised hvalue
  have hstmt := Script.writtenStmt_var .lexical (.cons hdeclarator .nil)
  rw [show "let " = Script.VarKind.text .lexical ++ " " from rfl]
  simpa only [Script.commas, Text.joinWith, String.append_assoc] using hstmt.ofSource

/-- The text of an access or a call is the access or the call of all its parts, and no part of it is
taken for a statement of its own.  No point may stand behind a whole numeral. -/
theorem ofText?_applies {g : Generator} {x : Expr} {tree : Script.Expr} (h : Applies g x tree)
    (hpoint : pointsBehindWhole g x = false) :
    Script.Expr.ofText? ((lowerExpr x).text.run g).1 = some tree ∧ ∀ name, Script.BindingName name →
        Script.Program.ofSource ("let " ++ name ++ " = " ++ ((lowerExpr x).text.run g).1 ++ ";") =
          .ok ⟨[.var .lexical [⟨.ident name, some tree⟩]]⟩ :=
  ⟨(h.rereads hpoint).ofText?, fun _ hname => (h.rereads hpoint).declared hname⟩

/-- A state in which `dist` is a method. -/
def withMethod : Generator := { Generator.initial with methods := ["dist"] }

/-- `scale = -a, a + b, mode = "k"` -/
def namedArguments : List Argument :=
  [⟨some "scale", .unary .neg (.ident "a")⟩, ⟨none, .binary .add (.ident "a") (.ident "b")⟩,
    ⟨some "mode", .str "k"⟩]

/-- `(a ? b : c).dist(scale = -a, a + b, mode = "k")` -/
def namedMethodCall : Expr :=
  .call (.member (.ternary (.ident "a") (.ident "b") (.ident "c")) "dist") [] namedArguments

/-- `dist(a ? b : c, a + b, { scale: -a, mode: "k" })` -/
def namedMethodCallTree : Script.Expr :=
  .call (.ident "dist") [.conditional (.ident "a") (.ident "b") (.ident "c"),
    .binary .add (.ident "a") (.ident "b"),
    .object [⟨.name "scale", .unary .neg (.ident "a"), false⟩, ⟨.name "mode", .str "k", false⟩]]

theorem namedArguments_reread (g : Generator) : RereadsArguments g namedArguments
    [(some "scale", .unary .neg (.ident "a")), (none, .binary .add (.ident "a") (.ident "b")),
      (some "mode", .str "k")] :=
  .cons (by simp; rfl) (rereads_operatorTree _ rfl _)
    (.cons (by simp) (rereads_operatorTree _ rfl _)
    (.cons (by simp; rfl) (rereads_operatorTree _ rfl _) .nil))

theorem namedMethodCall_ofText? : Applies withMethod namedMethodCall namedMethodCallTree ∧
    pointsBehindWhole withMethod namedMethodCall = false ∧
    Script.Expr.ofText? ((lowerExpr namedMethodCall).text.run withMethod).1 =
      some namedMethodCallTree ∧
    ∀ name, Script.BindingName name → Script.Program.ofSource
        ("let " ++ name ++ " = " ++ ((lowerExpr namedMethodCall).text.run withMethod).1 ++ ";") =
          .ok ⟨[.var .lexical [⟨.ident name, some namedMethodCallTree⟩]]⟩ := by
  have happlies : Applies withMethod namedMethodCall namedMethodCallTree :=
    .method rfl (rereads_operatorTree _ rfl _) (by decide) (namedArguments_reread _)
  exact ⟨happlies, rfl, ofText?_applies happlies rfl⟩

/-- `(5).foo` -/
def wholeMember : Expr := .member (.int 5) "foo"

/-- A member of a whole numeral is written as `5.foo`, which is no expression; where it is declared,
`foo` becomes a statement of its own. -/
theorem wholeMember_splits : Applies .initial wholeMember (.member (.nat 5) "foo") ∧
    Script.Expr.ofText? ((lowerExpr wholeMember).text.run .initial).1 = none ∧
    ∃ program, Script.Program.ofSource
        ("let x = " ++ ((lowerExpr wholeMember).text.run .initial).1 ++ ";") = .ok program ∧
      program.body.length = 2 := by
  obtain ⟨program, hprogram, hlength⟩ := eq_ok_of_any (x := Script.Program.ofSource
      ("let x = " ++ ((lowerExpr wholeMember).text.run .initial).1 ++ ";"))
    (p := fun program => program.body.length == 2) (by decide +kernel)
  exact ⟨.member (rereads_operatorTree _ rfl _) rfl,
    Option.isNone_iff_eq_none.mp (by decide +kernel), program, hprogram, beq_iff_eq.mp hlength⟩

end IndicatorCompiler.Lowering
