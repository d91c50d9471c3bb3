import IndicatorCompiler.NormalForm
import IndicatorCompiler.Proofs.TreeChecks
import IndicatorCompiler.SlotForm.Tree

/-!
# Declared and assigned destructurings

A destructuring that declares its names becomes one declaration for each of them; one that assigns
becomes one write for each.  Both reach the same parts of the value, in the order in which the names
stand in the pattern.
-/

namespace IndicatorCompiler.Script

/-! ## Shapes of patterns -/

variable {δ : Type}

mutual
/-- What a pattern binds, with defaults read by `f`. -/
def Pattern.shape (f : Expr → δ) : Pattern → Shape δ
  | .ident x => .binding x
  | .array items => .array (itemShapes f items)
  | .object ps => .object (propertyShapes f ps)
  | .withDefault target value => .withDefault (target.shape f) (f value)
  | .rest target => .rest (target.shape f)

/-- What the elements of an array pattern bind. -/
def itemShapes (f : Expr → δ) : List (Option Pattern) → List (Option (Shape δ))
  | [] => []
  | none :: items => none :: itemShapes f items
  | some pattern :: items => some (pattern.shape f) :: itemShapes f items

/-- What the properties of an object pattern bind. -/
def propertyShapes (f : Expr → δ) : List PatternProperty → List (String × Shape δ)
  | [] => []
  | ⟨key, value⟩ :: ps => (key, value.shape f) :: propertyShapes f ps
end

/-- No functions stand in the tree. -/
def functionFree : Check := ⟨fun _ => false, fun _ => true⟩

end IndicatorCompiler.Script

namespace IndicatorCompiler.NormalForm

open Script

/-! ## Expressions without functions -/

mutual
/-- An expression without functions is in normal form. -/
theorem normalExpr_eq_pure : (e : Expr) → e.every functionFree = true → normalExpr e = pure e
  | .ident _, _ | .lit _, _ => rfl
  | .array items, h | .sequence items, h => by rw [normalExpr, normalExprs_eq_pure items h]; rfl
  | .object ps, h => by rw [normalExpr, normalProperties_eq_pure ps h]; rfl
  | .function ⟨_, _, _, _⟩, h => by cases h
  | .unary _ arg, h | .update _ _ arg, h | .spread arg, h | .member arg _, h => by
    rw [normalExpr, normalExpr_eq_pure arg h]; rfl
  | .binary _ l r, h | .assign _ l r, h | .index l r, h => by
    rw [Expr.every, Bool.and_eq_true] at h
    rw [normalExpr, normalExpr_eq_pure l h.1, normalExpr_eq_pure r h.2]; rfl
  | .conditional test c a, h => by
    rw [Expr.every, Bool.and_eq_true, Bool.and_eq_true] at h
    rw [normalExpr, normalExpr_eq_pure test h.1.1, normalExpr_eq_pure c h.1.2,
      normalExpr_eq_pure a h.2]
    rfl
  | .call f args, h | .new f args, h => by
    rw [Expr.every, Bool.and_eq_true] at h
    rw [normalExpr, normalExpr_eq_pure f h.1, normalExprs_eq_pure args h.2]; rfl

theorem normalExprs_eq_pure : (items : List Expr) → everyExpr functionFree items = true →
    normalExprs items = pure items
  | [], _ => rfl
  | e :: rest, h => by
    rw [everyExpr, Bool.and_eq_true] at h
    rw [normalExprs, normalExpr_eq_pure e h.1, normalExprs_eq_pure rest h.2]; rfl

theorem normalProperties_eq_pure : (ps : List Property) → everyProperty functionFree ps = true →
    normalProperties ps = pure ps
  | [], _ => rfl
  | ⟨.name _, value, _⟩ :: rest, h | ⟨.str _, value, _⟩ :: rest, h => by
    rw [everyProperty, Bool.and_eq_true, Bool.and_eq_true] at h
    rw [normalProperties, normalExpr_eq_pure value h.1.2, normalProperties_eq_pure rest h.2]
    · rfl
    · nofun
  | ⟨.computed key, value, _⟩ :: rest, h => by
    rw [everyProperty, PropertyKey.every, Bool.and_eq_true, Bool.and_eq_true] at h
    rw [normalProperties, normalExpr_eq_pure key h.1.1, normalExpr_eq_pure value h.1.2,
      normalProperties_eq_pure rest h.2]
    rfl
end

end IndicatorCompiler.NormalForm

namespace IndicatorCompiler.SlotForm

open Script NormalForm

/-! ## Assigned patterns -/

mutual
/-- An expression that is read as a pattern has the shape of the pattern. -/
theorem shape?_eq : (e : Expr) → shape? e = e.toPattern?.map (·.shape operand)
  | .ident _ => rfl
  | .array items => by
    rw [shape?, shapeItems?_eq items, Expr.toPattern?]
    cases patternItems? items <;> rfl
  | .object ps => by
    rw [shape?, shapeProperties?_eq ps, Expr.toPattern?]
    cases patternProperties? ps <;> rfl
  | .assign .assign target value => by
    rw [shape?, shape?_eq target, Expr.toPattern?]
    cases target.toPattern? <;> rfl
  | .spread arg => by
    rw [shape?, shape?_eq arg, Expr.toPattern?]
    cases arg.toPattern? <;> rfl
  | .lit _ | .function _ | .unary _ _ | .update _ _ _ | .binary _ _ _ | .conditional _ _ _
  | .call _ _
  | .new _ _ | .member _ _ | .index _ _ | .sequence _ => rfl
  | .assign .add _ _ | .assign .sub _ _ | .assign .mul _ _ | .assign .div _ _
  | .assign .mod _ _ => rfl

theorem shapeItems?_eq : (items : List Expr) →
    shapeItems? items = (patternItems? items).map (itemShapes operand)
  | [] => rfl
  | e :: rest => by
    rw [shapeItems?, shape?_eq e, shapeItems?_eq rest, patternItems?]
    cases e.toPattern? <;> cases patternItems? rest <;> rfl

theorem shapeProperties?_eq : (ps : List Property) →
    shapeProperties? ps = (patternProperties? ps).map (propertyShapes operand)
  | [] => rfl
  | ⟨.name _, value, _⟩ :: rest | ⟨.str _, value, _⟩ :: rest => by
    rw [shapeProperties?, shape?_eq value, shapeProperties?_eq rest, patternProperties?]
    cases value.toPattern? <;> cases patternProperties? rest <;> rfl
  | ⟨.computed _, _, _⟩ :: _ => rfl
end

/-! ## Agreement -/

/-- Declarations and leaves agree: both are there, of the same parts under the given names, or
neither is since a rest element is misplaced. -/
def Agree (kind : VarKind) (s : Scopes) (names : List String) (stmts : Normalizing (List Stmt))
    (leaves? : Option (List (String × Operand))) : Prop :=
  (∃ parts : List (String × Expr),
    stmts.run s = .ok (parts.map fun (x, part) => declared kind (.ident x) (some part), s) ∧
    leaves? = some (parts.map fun (x, part) => (x, operand part)) ∧
    parts.map (·.1) = names) ∨
  (stmts.run s = .error .misplacedRest ∧ leaves? = none)

variable {kind : VarKind} {s : Scopes}

theorem agree_nil : Agree kind s [] (pure []) (some []) := .inl ⟨[], rfl, rfl, rfl⟩

theorem Agree.append {xs ys x y l l'} (h : Agree kind s xs x l) (h' : Agree kind s ys y l') :
    Agree kind s (xs ++ ys) (do let first ← x; return first ++ (← y))
      (do let first ← l; return first ++ (← l')) := by
  rcases h with ⟨parts, hrun, rfl, rfl⟩ | ⟨hrun, rfl⟩
  · rcases h' with ⟨parts', hrun', rfl, rfl⟩ | ⟨hrun', rfl⟩
    · refine .inl ⟨parts ++ parts', ?_, ?_, List.map_append⟩
      · rw [StateT.run_bind, hrun]
        change (y.run s >>= _) = _
        rw [hrun', List.map_append]
        rfl
      · rw [List.map_append]
        rfl
    · refine .inr ⟨?_, rfl⟩
      rw [StateT.run_bind, hrun]
      change (y.run s >>= _) = _
      rw [hrun']
      rfl
  · refine .inr ⟨?_, rfl⟩
    rw [StateT.run_bind, hrun]
    rfl

mutual
theorem agree_pattern : (p : Pattern) → p.every functionFree = true → (source : Expr) →
    Agree kind s p.boundNames (expandPattern kind source p)
      ((p.shape operand).leaves? operandAccess (operand source))
  | .ident x, _, source => .inl ⟨[(x, source)], rfl, rfl, rfl⟩
  | .withDefault target value, h, source => by
    rw [Pattern.every, Bool.and_eq_true] at h
    rw [expandPattern, normalExpr_eq_pure value h.2, pure_bind]
    exact agree_pattern target h.1 (orDefault source value)
  | .array items, h, source => agree_items items h source 0
  | .object ps, h, source => agree_properties ps h source
  | .rest _, _, _ => .inr ⟨rfl, rfl⟩

theorem agree_items : (items : List (Option Pattern)) → everyItem functionFree items = true →
    (source : Expr) → (i : Nat) →
    Agree kind s (boundInItems items) (expandItems kind source i items)
      (Shape.itemLeaves? operandAccess (operand source) i (itemShapes operand items))
  | [], _, _, _ => agree_nil
  | none :: rest, h, source, i => by
    rw [expandItems, pure_bind]
    simp only [List.nil_append, bind_pure]
    exact agree_items rest h source (i + 1)
  | some (.rest target) :: rest, h, source, i => by
    rw [everyItem, Bool.and_eq_true] at h
    exact (agree_pattern target h.1 (elementsFrom source i)).append
      (agree_items rest h.2 source (i + 1))
  | some (.ident _) :: rest, h, source, i | some (.array _) :: rest, h, source, i
  | some (.object _) :: rest, h, source, i | some (.withDefault _ _) :: rest, h, source, i => by
    rw [everyItem, Bool.and_eq_true] at h
    exact (agree_pattern _ h.1 (elementOf source i)).append (agree_items rest h.2 source (i + 1))

theorem agree_properties :
    (ps : List PatternProperty) → everyPatternProperty functionFree ps = true → (source : Expr) →
    Agree kind s (boundInProperties ps) (expandProperties kind source ps)
      (Shape.propertyLeaves? operandAccess (operand source) (propertyShapes operand ps))
  | [], _, _ => agree_nil
  | ⟨key, value⟩ :: rest, h, source => by
    rw [everyPatternProperty, Bool.and_eq_true] at h
    exact (agree_pattern value h.1 (.member source key)).append (agree_properties rest h.2 source)
end

/-- If no functions stand in the defaults of a pattern then declaring its names and assigning them
agree, for every source: either both reach the same parts, each under its name and in the order of
the names in the pattern, and the scopes stay as they are; or both fail because of a misplaced rest
element.  An assignment takes its value apart in this way if its target is read as the pattern. -/
theorem expandPattern_agree (kind : VarKind) (p : Pattern) (source : Expr) (s : Scopes)
    (hdefaults : p.every functionFree = true) :
    ((∃ parts : List (String × Expr), (expandPattern kind source p).run s =
          .ok (parts.map fun (x, part) => declared kind (.ident x) (some part), s) ∧
        (p.shape operand).leaves? operandAccess (operand source) =
          some (parts.map fun (x, part) => (x, operand part)) ∧
        parts.map (·.1) = p.boundNames) ∨
      ((expandPattern kind source p).run s = .error .misplacedRest ∧
        (p.shape operand).leaves? operandAccess (operand source) = none)) ∧
    ∀ target : Expr, target.toPattern? = some p → shape? target = some (p.shape operand) := by
  refine ⟨agree_pattern p hdefaults source, fun target htarget => ?_⟩
  rw [shape?_eq, htarget, Option.map_some]

/-- A pattern with all there is: a hole, a default, a rest element and nested patterns. -/
def nestedPattern : Pattern :=
  .array [some
    (.object [⟨"high", .withDefault (.ident "h") (.nat 1)⟩, ⟨"low", .array [some (.ident "l")]⟩]),
    none, some (.rest (.ident "others"))]

/-- The pattern `[{ high: h = 1, low: [l] }, , ...others]`, declared and assigned. -/
theorem expandPattern_agree_nested : nestedPattern.every functionFree = true ∧
    nestedPattern.boundNames = ["h", "l", "others"] ∧
    ∃ parts : List (String × Expr), (expandPattern .lexical (.ident "bars") nestedPattern).run
    (.ofRoot "$") =
        .ok (parts.map fun (x, part) => declared .lexical (.ident x) (some part), .ofRoot "$") ∧
      (nestedPattern.shape operand).leaves? operandAccess (operand (.ident "bars")) =
        some (parts.map fun (x, part) => (x, operand part)) ∧
      parts.map (·.1) = ["h", "l", "others"] := by
  have hdefaults : nestedPattern.every functionFree = true := by decide
  refine ⟨hdefaults, by decide, ?_⟩
  obtain h | ⟨-, hnone⟩ :=
    (expandPattern_agree .lexical nestedPattern (.ident "bars") (.ofRoot "$") hdefaults).1
  · exact h
  · cases hnone

end IndicatorCompiler.SlotForm
