import IndicatorCompiler.Proofs.EmittedNames

/-!
# What a delivered value is assigned to

A declaration whose value is lifted is emitted as an empty declaration, and then come the statements
that assign the value on every path.  Such an assignment stands at the end of a block, and of every
block around it.  It means the empty declaration, unless one of these blocks declares the name once
more.  `Expr.declares` lists the names that a source has them declare, and the blocks of the script
declare just these, besides generated names.
-/

namespace IndicatorCompiler.Pine

open Lowering (isChoice)

/-! ## Names on the way to a value -/

/-- Which of the names are meant that statements declare. -/
inductive Extent where
  /-- Those of the block that the statements stand in, if they are there for their effect. -/
  | effect
  /-- Those of the block that the statements stand in, if they deliver a value. -/
  | block
  /-- Those of the block, and of all blocks on the way to the value. -/
  | path
  deriving DecidableEq

/-- The names of a choice.  Its parts are blocks of their own, unless there is nothing to test. -/
def choiceNames (extent : Extent) (arms : List (List String)) (last : List String) : List String :=
  if arms = [] ∨ extent = .path then arms.flatten ++ last else []

/-- A case, and the names that its body declares. -/
structure CaseNames where
  tested : Bool
  names : List String

/-- The names of a `switch`.  Of several defaults the last one counts. -/
def switchNames (extent : Extent) (cases : List CaseNames) : List String :=
  choiceNames extent ((cases.filter (·.tested)).map (·.names))
    ((cases.filter (!·.tested)).getLast?.elim [] (·.names))

mutual
/-- The names that are declared where an expression is lowered to statements. -/
def Expr.declares (extent : Extent) : Expr → List String
  | .conditional branches last _ =>
    choiceNames extent (branchesDeclare extent branches) (match last with
        | none => []
        | some body => bodyDeclares extent body)
  | .switch _ cases _ => switchNames extent (casesDeclare extent cases)
  | _ => []

/-- The names that the branches of an `if` declare. -/
def branchesDeclare (extent : Extent) : List Branch → List (List String)
  | [] => []
  | ⟨_, body⟩ :: rest => bodyDeclares extent body :: branchesDeclare extent rest

/-- The names that the cases of a `switch` declare. -/
def casesDeclare (extent : Extent) : List Case → List CaseNames
  | [] => []
  | ⟨test, body⟩ :: rest => ⟨test.isSome, bodyDeclares extent body⟩ :: casesDeclare extent rest

/-- The names that a body declares.  Only its last statement has a value. -/
def bodyDeclares (extent : Extent) : List Stmt → List String
  | [] => []
  | [⟨kind, _⟩] => kind.declares extent
  | ⟨kind, _⟩ :: next :: rest => kind.declares .effect ++ bodyDeclares extent (next :: rest)

/-- The names that a statement declares. -/
def StmtKind.declares (extent : Extent) : StmtKind → List String
  | .varDecl .plain _ (.name name) init =>
    name :: (if init.needsLifting then init.declares .block else [])
  | .varDecl _ _ target _ => target.names
  | .function name _ _ _ _ => [name]
  | .typeDecl name _ _ => [name]
  | .ifElse _ body otherwise =>
    choiceNames extent [bodyDeclares extent body] (bodyDeclares extent otherwise)
  | .expr value =>
    if (if extent = .effect then isChoice value else value.needsLifting) then value.declares extent
    else []
  | _ => []
end

section

variable {extent : Extent} {arms : List (List String)} {last : List String}

theorem choiceNames_nil : choiceNames extent [] last = last := if_pos (.inl rfl)

theorem choiceNames_path : choiceNames .path arms last = arms.flatten ++ last := if_pos (.inr rfl)

theorem choiceNames_of_ne (harms : arms ≠ []) (hextent : extent ≠ .path) :
    choiceNames extent arms last = [] := if_neg (not_or.mpr ⟨harms, hextent⟩)

theorem choiceNames_cons (own : List String) : choiceNames extent (own :: arms) last =
    choiceNames extent [own] (choiceNames extent arms last) := by
  by_cases hpath : extent = .path
  · subst hpath
    simp [choiceNames_path]
  · rw [choiceNames_of_ne (by simp) hpath, choiceNames_of_ne (by simp) hpath]

end

end IndicatorCompiler.Pine

namespace IndicatorCompiler.Lowering

open Pine
open Text (Rendered)

/-! ## Blocks that leave a name alone -/

/-- The statement does not declare the name. -/
def spares (y : String) (stmt : Emitted) : Bool := y ∉ stmt.names

/-- Under block scoping, a name means the declaration in the innermost block around it that has one.
The statements assign `y` on every path, and each time `y` means what it means in front of them:
none of them declares it, nor does a statement in any block around an assignment. -/
def reaches (y : String) (stmts : List Emitted) : Bool := deliversAmong (spares y) (.assign y) stmts

/-- The statements leave the name alone, as far as `extent` goes. -/
def leavesAlone (y : String) (extent : Extent) (stmts : List Emitted) : Bool :=
  if extent = .path then reaches y stmts else stmts.all (spares y)

/-- The statements declare `y` just if it is bound to one of the names. -/
structure Lands (y : String) (extent : Extent) (names : List String) (stmts : List Emitted) :
    Prop where
  nonempty : extent = .path → stmts ≠ []
  iff : leavesAlone y extent stmts = true ↔ y ∉ names.map bindingName

/-- The sinks that `extent` is about. -/
def Fits (y : String) : Extent → Sink → Prop
  | .effect, sink => sink = .discard
  | .block, sink => sink ≠ .discard
  | .path, sink => sink = .assign y

/-- In this scene `y` is not generated, and methods have names that a source can have. -/
structure Watches (S : Scene) (y : String) : Prop where
  fresh : ∀ k : Nat, switchStem ++ toString k ∉ S.declared → switchStem ++ toString k ≠ y
  methods : ∀ m ∈ S.methods, IsIdentifier m

section

variable {S : Scene} {y : String} {extent : Extent} {names names' : List String}

theorem leavesAlone_append (before : List Emitted) {new} (hnew : extent = .path → new ≠ []) :
    leavesAlone y extent (before ++ new) =
    (leavesAlone y .effect before && leavesAlone y extent new) := by
  by_cases hpath : extent = .path
  · subst hpath
    exact deliversAmong_append (spares y) (.assign y) before (hnew rfl)
  · simp [leavesAlone, hpath]

/-- What comes first is there for its effect. -/
theorem Lands.behind {before new} (h : Lands y extent names' new)
    (hbefore : Lands y .effect names before) :
    Lands y extent (names ++ names') (before ++ new) where
  nonempty hpath := List.append_ne_nil_of_right_ne_nil before (h.nonempty hpath)
  iff := by
    rw [leavesAlone_append before h.nonempty, Bool.and_eq_true, hbefore.iff, h.iff]
    simp [not_or]

theorem lands_nil : Lands y .effect [] [] := ⟨nofun, by simp [leavesAlone]⟩

theorem lands_stmt {stmt} (h : stmt.names = names.map bindingName) : Lands y .effect names [stmt] :=
  ⟨nofun, by simp [leavesAlone, spares, h]⟩

theorem lands_delivered {sink} (h : Fits y extent sink) (value : String) :
    Lands y extent [] (sink.delivered value) := by
  have hassign (name : String) : spares y (.assign name value) = true := by
    simp [spares, Emitted.names]
  have hret : spares y (.ret value) = true := by simp [spares, Emitted.names]
  cases extent with
  | effect =>
    obtain rfl : sink = .discard := h
    exact lands_nil
  | block =>
    refine ⟨nofun, ?_⟩
    cases sink with
    | assign name => simp [leavesAlone, Sink.delivered, hassign]
    | ret => simp [leavesAlone, Sink.delivered, hret]
    | discard => exact absurd rfl h
  | path =>
    obtain rfl : sink = .assign y := h
    refine ⟨fun _ => List.cons_ne_nil _ _, ?_⟩
    simp [leavesAlone, reaches, Sink.delivered, deliversAmong, deliversStmt, hassign]

theorem lands_bindings {before} (h : ∀ stmt ∈ before, spares y stmt = true) :
    Lands y .effect [] before := by
  refine ⟨nofun, iff_of_true ?_ (by simp)⟩
  rwa [leavesAlone, if_neg (by decide), List.all_eq_true]

theorem spares_binding (hS : Watches S y) {k : Nat} (hfresh : switchStem ++ toString k ∉ S.declared)
    (value : String) :
    spares y (.line ("let " ++ (switchStem ++ toString k) ++ " = " ++ value ++ ";")) = true := by
  have hbinder : Binder [switchStem ++ toString k] (switchStem ++ toString k) :=
    .name (isWord_switchName k)
  have hnames := lineNames_binder (show "let" ∈ declaringWords by decide) hbinder (value ++ ";")
  rw [← String.append_assoc, show "let" ++ " " = "let " from rfl] at hnames
  simp only [spares, Emitted.names, hnames, List.mem_singleton, decide_eq_true_eq]
  exact (hS.fresh k hfresh).symm

end

/-! ## Outcomes -/

/-- The names of a chain. -/
def chainNames (extent : Extent) (branches : List Branch) (last : Option (List Stmt)) :
    List String :=
  choiceNames extent (branches.map fun branch => bodyDeclares extent branch.body)
    (last.elim [] (bodyDeclares extent))

/-- An `if` statement declares the names of its flat chain. -/
theorem declares_ifElse (extent : Extent) (test : Expr) (body otherwise : List Stmt) :
    (StmtKind.ifElse test body otherwise).declares extent =
      chainNames extent (ifChain test body otherwise).1 (ifChain test body otherwise).2 := by
  fun_induction ifChain test body otherwise with
  | case1 test body test' body' otherwise line branches last hchain ih =>
    rw [hchain] at ih
    rw [chainNames, List.map_cons, choiceNames_cons, ← chainNames, ← ih]
    rfl
  | case2 test body => rfl
  | case3 test body otherwise hif hnil => rfl

theorem branchesDeclare_eq_map (extent : Extent) : (branches : List Branch) →
    branchesDeclare extent branches = branches.map fun branch => bodyDeclares extent branch.body
  | [] => rfl
  | ⟨_, _⟩ :: rest => congrArg (_ :: ·) (branchesDeclare_eq_map extent rest)

theorem casesDeclare_eq_map (extent : Extent) : (cases : List Case) → casesDeclare extent cases =
    cases.map fun case => ⟨case.test.isSome, bodyDeclares extent case.body⟩
  | [] => rfl
  | ⟨_, _⟩ :: rest => congrArg (_ :: ·) (casesDeclare_eq_map extent rest)

/-- A `switch` declares the names of its cases. -/
theorem declares_switch (extent : Extent) (d : Option Expr) (cases : List Case) (lifts : Bool) :
    (Expr.switch d cases lifts).declares extent =
      chainNames extent (testedBranches cases) (defaultBody cases) := by
  obtain ⟨hbranches, hdefault⟩ := cases_eq_branches CaseNames.tested CaseNames.names
    (m := fun case => ⟨case.test.isSome, bodyDeclares extent case.body⟩) (fun _ => rfl)
    (fun _ => rfl) cases
  rw [Expr.declares, switchNames, casesDeclare_eq_map, hbranches, hdefault, chainNames]

/-- The outcome declares `y` just if the part of the tree does that it is made of. -/
def Landing (y : String) : Outcome → Prop
  | .binding stmt => spares y stmt = true
  | .into sink x new => ∀ extent, Fits y extent sink → Lands y extent (x.declares extent) new
  | .chain sink _ branches last new => ∀ extent, Fits y extent sink →
      Lands y extent (chainNames extent branches last) new
  | .arms sink _ branches arms => sink = .assign y →
      (deliversArms (spares y) sink arms = true ↔
        y ∉ (branches.map fun branch => bodyDeclares .path branch.body).flatten.map bindingName)
  | .last sink _ last new => ∀ extent, Fits y extent sink →
      Lands y extent (last.elim [] (bodyDeclares extent)) new
  | .body sink _ body new =>
    ∀ extent, Fits y extent sink → Lands y extent (bodyDeclares extent body) new
  | .stmt sink _ kind new =>
    ∀ extent, Fits y extent sink → Lands y extent (kind.declares extent) new
  | .one _ kind stmt _ => ∀ extent, stmt.names = (kind.declares extent).map bindingName
  | _ => True

section

variable {S : Scene} {y : String} {extent : Extent} {names : List String}

theorem fits_effect {sink} (h : Fits y extent sink) : extent = .effect ↔ sink = .discard := by
  cases extent with
  | effect => exact iff_of_true rfl h
  | block => exact iff_of_false nofun h
  | path => exact iff_of_false nofun (by rintro rfl; cases h)

theorem Lands.ofBlock {new} (h : Lands y .block names new) : Lands y .effect names new :=
  ⟨nofun, h.iff⟩

/-- A chain leaves the name alone if its parts do, or if they are none of its concern. -/
theorem lands_chain {sink} (hsink : Fits y extent sink) {branches last first more final}
    (hbranches : branches ≠ []) (harms : Landing y (.arms sink "" branches (first :: more)))
    (hfinal : ∀ new ∈ final, Landing y (.last sink "" last new))
    (hsome : sink ≠ .discard → final.isSome = true) :
    Lands y extent (chainNames extent branches last) [.chain first more final] := by
  by_cases hpath : extent = .path
  · subst hpath
    obtain rfl : sink = .assign y := hsink
    obtain ⟨new, rfl⟩ := Option.isSome_iff_exists.mp (hsome (by simp))
    refine ⟨fun _ => List.cons_ne_nil _ _, ?_⟩
    have hparts : leavesAlone y .path [.chain first more (some new)] =
        (deliversArms (spares y) (.assign y) (first :: more) && leavesAlone y .path new) := by
      simp [leavesAlone, reaches, deliversAmong, deliversStmt, deliversArms, spares, Emitted.names]
    rw [hparts, Bool.and_eq_true, harms rfl, (hfinal new rfl .path rfl).iff, chainNames,
      choiceNames_path, List.map_append, List.mem_append, not_or]
  · refine ⟨fun h => absurd h hpath, ?_⟩
    have hne : (branches.map fun branch => bodyDeclares extent branch.body) ≠ [] := by
      simpa using hbranches
    simp [leavesAlone, hpath, chainNames, choiceNames_of_ne hne hpath, spares, Emitted.names]

/-- What is declared stands behind the word. -/
theorem names_declared {target} (h : ∀ n ∈ target.names, IsIdentifier n) {word}
    (hword : word ∈ ["let", "var", "const"]) (value : String) :
    lineNames (word ++ " " ++ boundText target ++ " = " ++ value) =
      target.names.map bindingName := by
  have hdeclaring : ∀ word ∈ ["let", "var", "const"], word ∈ declaringWords := by decide
  have hbinder : Binder (target.names.map bindingName) (boundText target) := by
    cases target with
    | name name => exact .name (isWord_bindingName (h name List.mem_cons_self).1)
    | tuple names =>
      exact .tuple (List.forall_mem_map.mpr fun n hn => isWord_bindingName (h n hn).1)
  exact lineNames_binder (hdeclaring word hword) hbinder value

theorem declares_varDecl {mode target x}
    (h : ∀ n, target = .name n → (mode = .plain && x.needsLifting) = false) (type : Option TypeRef)
    (extent : Extent) : (StmtKind.varDecl mode type target x).declares extent = target.names := by
  cases target with
  | name n =>
    have hname := h n rfl
    cases mode <;> simp_all [StmtKind.declares, DeclTarget.names]
  | tuple names => cases mode <;> rfl

theorem names_forRange (counter start stop : String) (step : Bool × String) (body : List Emitted) :
    (Emitted.block (rangeHead counter start stop step) body).names = [] := by
  have hleads : Leads "for (let " := by decide
  obtain ⟨rest, hrest⟩ : ∃ rest, rangeHead counter start stop step = "for (let " ++ rest := by
    unfold rangeHead
    simp only [String.append_assoc]
    exact ⟨_, rfl⟩
  rw [Emitted.names, hrest]
  exact (hleads.begins (by decide) rest).lineNames

theorem names_forIn (target collection : String) (body : List Emitted) :
    (Emitted.block ("for (const " ++ target ++ " of " ++ collection ++ ")") body).names = [] := by
  have hleads : Leads "for (const " := by decide
  simp only [Emitted.names, String.append_assoc]
  exact (hleads.begins (by decide) _).lineNames

theorem names_while (test : String) (body : List Emitted) :
    (Emitted.block ("while (" ++ test ++ ")") body).names = [] := by
  have hleads : Leads "while (" := by decide
  simp only [Emitted.names, String.append_assoc]
  exact (hleads.begins (by decide) _).lineNames

/-- What lowering makes of a part declares the names that the part does. -/
theorem Emits.lands (hvalid : S.valid) (hS : Watches S y) {outcome : Outcome}
    (h : Emits S outcome) : Landing y outcome := by
  induction h with
  | binding hfresh => exact spares_binding hS hfresh _
  | @plain x _ _ sink hx _ _ hbefore _ =>
    intro extent hsink
    have hnone : x.declares extent = [] := by cases x <;> first | rfl | cases hx
    rw [hnone]
    exact (lands_delivered hsink _).behind (lands_bindings hbefore)
  | @conditional _ branches last _ lifts _ ih =>
    intro extent hsink
    have hnames : (Expr.conditional branches last lifts).declares extent =
        chainNames extent branches last := by
      cases last <;> simp only [Expr.declares, branchesDeclare_eq_map] <;> rfl
    exact hnames ▸ ih extent hsink
  | switch d lifts _ ih =>
    exact fun extent hsink => declares_switch extent d _ lifts ▸ ih extent hsink
  | bare _ _ hbefore ih =>
    intro extent hsink
    rw [chainNames, List.map_nil, choiceNames_nil]
    exact (ih extent hsink).behind (lands_bindings hbefore)
  | chain _ harms _ hsome hbefore ih hfinal =>
    refine fun extent hsink => (lands_chain hsink ?_ ih hfinal hsome).behind
      (lands_bindings hbefore)
    rintro rfl
    cases harms
  | armsNil => exact fun _ => by simp [deliversArms]
  | @armsCons _ _ _ _ arm _ _ _ _ _ hbody ih =>
    intro hsink
    obtain ⟨_, _⟩ := arm
    rw [deliversArms, Bool.and_eq_true, ih hsink, List.map_cons, List.flatten_cons, List.map_append,
      List.mem_append, not_or]
    subst hsink
    exact and_congr_left' (hbody .path rfl).iff
  | lastNone => exact fun _ hsink => lands_delivered hsink _
  | lastSome _ ih | bodyLast _ _ ih => exact ih
  | bodyNil => exact fun _ hsink => lands_delivered hsink _
  | bodyCons _ _ _ h ih => exact fun extent hsink => (ih extent hsink).behind (h .effect rfl)
  | oneOf _ _ _ hbefore ih hbetween =>
    intro extent hsink
    simpa using (((lands_delivered hsink _).behind (lands_bindings hbetween)).behind
      (lands_stmt (ih extent))).behind (lands_bindings hbefore)
  | @lifted _ _ type n _ _ hn hx _ ih =>
    intro extent hsink
    rw [StmtKind.declares, if_pos hx]
    have hline : Lands y .effect [n] [.line ("let " ++ bindingName n ++ ";")] :=
      lands_stmt (lineNames_let (isRun_bindingName (hn hvalid)))
    simpa using ((lands_delivered hsink _).behind (ih .block (by simp [Fits])).ofBlock).behind hline
  | ifElse _ ih => exact fun extent hsink => declares_ifElse extent .. ▸ ih extent hsink
  | exprInto hx _ ih =>
    intro extent hsink
    rw [StmtKind.declares, if_pos]
    · exact ih extent hsink
    · simpa only [fits_effect hsink] using hx
  | exprLine hx _ h hbefore _ =>
    intro extent hsink
    obtain rfl := (fits_effect hsink).mpr rfl
    rw [StmtKind.declares, if_neg (by simp [hx])]
    refine (lands_stmt ?_).behind (lands_bindings hbefore)
    exact (Leads.append (h.leads hvalid hS.methods) (by simp; decide)).lineNames
  | exprText hsink hx _ _ hbefore _ =>
    intro extent hfits
    rw [StmtKind.declares, if_neg]
    · exact (lands_delivered hfits _).behind (lands_bindings hbefore)
    · simp [fits_effect hfits, hsink, hx]
  | declared _ type hword htarget hplain =>
    intro extent
    rw [declares_varDecl hplain, Emitted.names, String.append_assoc]
    exact names_declared (htarget hvalid) hword _
  | reassign _ _ _ op ht =>
    intro _
    simp only [Emitted.names, String.append_assoc]
    exact (Leads.append (ht.leads hvalid hS.methods) (by simp; decide)).lineNames
  | function _ _ _ hn =>
    intro _
    rw [Emitted.names, String.append_assoc]
    exact lineNames_function (isRun_bindingName (hn hvalid)) _
  | type _ _ hn =>
    intro _
    have htext (y a b c : String) : "const " ++ y ++ " = Type(" ++ a ++ b ++ c =
        "const" ++ " " ++ y ++ " = " ++ ("Type(" ++ a ++ b ++ c) := by
      rw [show "const " = "const" ++ " " from rfl, show " = Type(" = " = " ++ "Type(" from rfl]
      simp only [String.append_assoc]
    rw [Emitted.names, htext]
    exact lineNames_binder (by decide) (.name (isWord_bindingName (hn hvalid).1)) _
  | forRange => exact fun _ => names_forRange ..
  | forIn => exact fun _ => names_forIn ..
  | whileLoop => exact fun _ => names_while ..
  | retNone | breakLoop | continueLoop => exact fun _ => Leads.lineNames (by decide)
  | ret => exact fun _ => rfl
  | _ => trivial

end

/-! ## The variable that a lifted value is for -/

/-- A generated name is not the one that an indicator's name is bound to, if those that could be
mistaken for generated names are known to be declared. -/
theorem watches_bindingName {S name}
    (hdeclared : ∀ k : Nat, name = switchStem ++ toString k → name ∈ S.declared)
    (hmethods : ∀ m ∈ S.methods, IsIdentifier m) : Watches S (bindingName name) where
  methods := hmethods
  fresh k hfresh heq := by
    unfold bindingName at heq
    split at heq
    · -- A word that is reserved gets an underscore at the end, where a generated name has a digit.
      have hlast : (switchStem ++ toString k).toList.getLast? = some '_' := by
        rw [heq]
        simp [String.toList_append]
      rw [String.toList_append, Nat.toString_eq_repr, Nat.toList_repr,
        List.getLast?_append_of_ne_nil _ Nat.toDigits_ne_nil] at hlast
      have hdigit :=
        Nat.isDigit_of_mem_toDigits (by decide) (by decide) (List.mem_of_getLast? hlast)
      exact absurd hdigit (by decide)
    · exact hfresh (heq ▸ hdeclared k heq.symm)

/-- **A lifted value reaches the variable that it initializes, unless a block on the way declares
it.**  A declaration whose value is lifted is emitted as an empty declaration, followed by
statements that assign the value on every path.  All these assignments mean the empty declaration
just if no block on the way to one of them declares a name that is bound in the same way. -/
theorem lifted_reaches_iff {name : String} (type : Option TypeRef) {init : Expr}
    (hlifts : init.needsLifting = true)
    (hvalid : AllValid (StmtKind.varDecl .plain type (.name name) init).leaves) {g : Generator}
    (hdeclared : ∀ k : Nat, name = switchStem ++ toString k → name ∈ g.declared)
    (hmethods : ∀ m ∈ g.methods, IsIdentifier m) :
    ∃ new, ((lowerStmt (.varDecl .plain type (.name name) init)).effect.run g).2.output =
        g.output ++ .line ("let " ++ bindingName name ++ ";") :: new ∧
      lineNames ("let " ++ bindingName name ++ ";") = [bindingName name] ∧
      (reaches (bindingName name) new = true ↔
        ∀ n ∈ init.declares .path, bindingName n ≠ bindingName name) := by
  rw [StmtKind.leaves, allValid_append, allValid_names] at hvalid
  let S : Scene := ⟨g.declared, g.methods, g.referenced, True⟩
  have hS : Watches S (bindingName name) := watches_bindingName hdeclared hmethods
  have hinto := (follows_expr init fun _ : S.valid => hvalid.2).into (.assign (bindingName name))
  have hname : S.valid → IsIdentifier name := fun _ => hvalid.1 name List.mem_cons_self
  obtain ⟨_, houtput, -, new, rfl, hnew⟩ := adds_lifted hname hinto (g := g)
    ⟨fun _ h => h, rfl, fun _ _ h => .inl h⟩
  refine ⟨new, ?_, lineNames_let (isRun_bindingName (hvalid.1 name List.mem_cons_self)), ?_⟩
  · rw [← houtput, ← hlifts]
    rfl
  · simpa [leavesAlone] using (hnew.lands trivial hS .path rfl).iff

/-- A `switch` on `f()`.  Its case declares `y` and a function, and a loop in it declares `x`; its
default ends in an `if` that declares `z`. -/
def crowdedValue : Expr :=
  switchValue (some (.call (.ident "f") [] [])) [ ⟨some (.int 1), [
      ⟨.varDecl .plain none (.name "y") (.int 1), 0⟩,
      ⟨.function "h" .function [⟨"x", none, none⟩] [⟨.expr (.ident "x"), 0⟩] false, 0⟩,
      ⟨.whileLoop (.ident "c") [⟨.varDecl .plain none (.name "x") (.ident "y"), 0⟩], 0⟩,
      ⟨.expr (.ident "y"), 0⟩]⟩,
    ⟨none, [⟨.ifElse (.ident "c") [⟨.varDecl .plain none (.name "z") (.int 2), 0⟩] [], 0⟩]⟩]

theorem crowdedValue_reaches :
    crowdedValue.needsLifting = true ∧ crowdedValue.declares .path = ["y", "h", "z"] ∧
    ∃ new, ((lowerStmt (.varDecl .plain none (.name "x") crowdedValue)).effect.run
        .initial).2.output = [] ++ .line ("let " ++ bindingName "x" ++ ";") :: new ∧
      reaches (bindingName "x") new = true := by
  have hdeclared (k : Nat) (h : "x" = switchStem ++ toString k) : "x" ∈
    Generator.initial.declared := by
    have hhead := congrArg (·.toList.head?) h
    simp [switchStem, String.toList_append] at hhead
  have hvalid : AllValid (StmtKind.varDecl .plain none (.name "x") crowdedValue).leaves := by
    change AllValid (["x", "f", "y", "h", "x", "x", "c", "x", "y", "y", "c", "z"].map .name)
    rw [allValid_names]
    unfold IsIdentifier
    decide
  obtain ⟨new, houtput, -, hreaches⟩ := lifted_reaches_iff none rfl hvalid hdeclared
    (by simp [Generator.initial])
  exact ⟨rfl, rfl, new, houtput, hreaches.mpr (by decide)⟩

/-- `if c`, with a body that declares `x` and is worth `x * 2`, and otherwise `0`. -/
def shadowedValue : Expr :=
  .conditional [⟨.ident "c", [⟨.varDecl .plain none (.name "x") (.int 1), 0⟩,
    ⟨.expr (.binary .mul (.ident "x") (.int 2)), 0⟩]⟩] (some [⟨.expr (.int 0), 0⟩]) true

/-- The value of the body is assigned to the `x` that the body declares. -/
theorem shadowedValue_captured : shadowedValue.needsLifting = true ∧
    ((lowerStmt (.varDecl .plain none (.name "x") shadowedValue)).effect.run .initial).2.output =
      [.line "let x;",
        .chain ⟨"c", [.line "let x = 1;", .assign "x" "x * 2"]⟩ [] (some [.assign "x" "0"])] ∧
    Emitted.names (.line "let x = 1;") = ["x"] ∧
    reaches "x" [.chain ⟨"c", [.line "let x = 1;", .assign "x" "x * 2"]⟩ []
      (some [.assign "x" "0"])] = false :=
  ⟨rfl, rfl, by decide, by decide⟩

end IndicatorCompiler.Lowering
