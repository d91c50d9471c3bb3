import IndicatorCompiler.Proofs.RoundTrip

/-!
# Lowered operators keep their grouping

Lowering puts parentheses where its own table of strengths asks for them; the script is read by
another table.  `Rereads` says that the text of a lowered expression is read as a certain tree, with
the strength that lowering gave it.  Every operator of an indicator hands this on from its operands
to what it makes of them, so expressions made of operators are read as the trees that they stand
for.
-/

open Option (pure_def bind_eq_bind bind_eq_some_iff some.inj some.injEq)

namespace IndicatorCompiler.Script

open Text (Rendered)

/-! ## Texts and what follows them -/

/-- As `Written`, where the characters in `after` may follow the text. -/
def WrittenBefore (after : Char → Bool) (n : Nat) (text : String) (e : Expr) : Prop :=
  ∃ ks, Lexes after text ks ∧ Begins text ks ∧ Reads n ks e

section

variable {after after' : Char → Bool} {m n : Nat} {text : String} {e : Expr} {r : Rendered}

theorem Prints.writtenBefore (h : Prints after r e) : WrittenBefore after r.strength r.text e := by
  obtain ⟨ks, hlexes, hbegins, hreads, -⟩ := h
  exact ⟨ks, hlexes, hbegins, hreads⟩

theorem WrittenBefore.mono (h : WrittenBefore after n text e)
    (hafter : ∀ c, after' c = true → after c = true) (hmn : m ≤ n) :
    WrittenBefore after' m text e := by
  obtain ⟨ks, hlexes, hbegins, hreads⟩ := h
  exact ⟨ks, hlexes.mono hafter, hbegins, hreads.mono hmn⟩

theorem WrittenBefore.enclosed (h : WrittenBefore after n text e) (hafter : Terminates after)
    (after' : Char → Bool) (m : Nat) : WrittenBefore after' m ("(" ++ text ++ ")") e := by
  obtain ⟨ks, hlexes, -, hreads⟩ := h
  exact ⟨_, (hlexes.parens hafter).weaken, begins_parens _ _, hreads.parens⟩

theorem WrittenBefore.member {name} (h : WrittenBefore endsName 18 text e)
    (hname : isName name = true) :
    WrittenBefore endsName 18 (text ++ "." ++ name) (.member e name) := by
  obtain ⟨ks, hlexes, hbegins, hreads⟩ := h
  exact ⟨_, hlexes.member hname, (hbegins.append hreads.ne_nil ("." ++ name) _).cast
    (by simp only [String.append_assoc]), hreads.member name⟩

theorem WrittenBefore.index {inner i} (h : WrittenBefore endsNumber 18 text e)
    (hi : Written n inner i) :
    WrittenBefore endsName 18 (text ++ "[" ++ inner ++ "]") (.index e i) := by
  obtain ⟨ks, hlexes, hbegins, hreads⟩ := h
  obtain ⟨ki, hlexes', -, hreads'⟩ := hi
  exact ⟨_, (hlexes.index hlexes').weaken,
    (hbegins.append hreads.ne_nil ("[" ++ inner ++ "]") _).cast
    (by simp only [String.append_assoc]), hreads.index hreads'⟩

theorem WrittenBefore.call {texts args} (h : WrittenBefore endsNumber 18 text e)
    (hargs : List.Forall₂ (WrittenItem .rParen Grammar.element) texts args) :
    WrittenBefore endsName 18 (text ++ "(" ++ commas texts ++ ")") (.call e args) := by
  obtain ⟨ks, hlexes, hbegins, hreads⟩ := h
  obtain ⟨ka, hlexes', hitems, hbalanced⟩ := lexes_list hargs
  exact ⟨_, (hlexes.closedBy hlexes' (head?_parens _) rfl).weaken.cast
      (by simp only [String.append_assoc]) rfl,
    (hbegins.append hreads.ne_nil ("(" ++ commas texts ++ ")") _).cast
      (by simp only [String.append_assoc]), hreads.call hitems hbalanced⟩

end

end IndicatorCompiler.Script

namespace IndicatorCompiler.Lowering

open Pine
open Script (Written WrittenBefore Terminates endsName endsNumber)
open Text (Rendered)

/-! ## Lowered expressions that are read again -/

/-- A numeral without a point: one behind it would belong to the number. -/
def isWhole : Expr → Bool
  | .int _ => true
  | .float (.finite _ x) => decide ('.' ∉ x.digits.positional.toList)
  | _ => false

/-- What an expression is written as, and how strongly it binds. -/
def rendering (g : Generator) (x : Expr) : Rendered := ((lowerExpr x).rendered.run g).1

/-- The state after an expression has been written. -/
def passed (g : Generator) (x : Expr) : Generator := ((lowerExpr x).rendered.run g).2

/-- What may follow the text: a point only if the text is no operand of an operator and no numeral
without one. -/
def mayFollow (x : Expr) (r : Rendered) : Char → Bool :=
  if isWhole x || decide (r.strength < Strength.call) then endsNumber else endsName

/-- Lowered in the state `g`, the expression is read as `tree` with the strength it is written
with. -/
def Rereads (g : Generator) (x : Expr) (tree : Script.Expr) : Prop :=
  WrittenBefore (mayFollow x (rendering g x)) (rendering g x).strength (rendering g x).text tree

/-- Expressions, lowered one after another, are read as trees. -/
inductive RereadsAll : Generator → List Expr → List Script.Expr → Prop
  | nil {g} : RereadsAll g [] []
  | cons {g x xs tree trees} (first : Rereads g x tree) (rest : RereadsAll (passed g x) xs trees) :
      RereadsAll g (x :: xs) (tree :: trees)

theorem terminates_mayFollow (x : Expr) (r : Rendered) : Terminates (mayFollow x r) := by
  unfold mayFollow
  split
  · exact Script.terminates_endsNumber
  · exact Script.terminates_endsName

/-- Only a call through a member has a rule of its own. -/
theorem lowerExpr_call {callee} (h : ∀ base property, callee ≠ .member base property)
    (typeArgs : List TypeRef) (args : List Argument) :
    lowerExpr (.call callee typeArgs args) =
      .ofRendered (renderCall (lowerExpr callee) (lowerArguments args)) := by
  cases callee with
  | member base property => exact absurd rfl (h base property)
  | _ => rfl

/-- A call binds like a call, whatever it calls. -/
theorem strength_memberCall (g : Generator) (base : Expr) (object : Lowered) (property : String)
    (typeArgs : List TypeRef) (args : List LoweredArgument) :
    ((renderMemberCall base object property typeArgs args).run g).1.strength = Strength.call := by
  simp only [renderMemberCall, StateT.run_bind, StateT.run_get, pure_bind]
  split
  · rfl
  · simp only [StateT.run_bind]
    split <;> rfl

/-- Nothing binds as strongly as a test and no stronger than a choice. -/
theorem strength_rendering (g : Generator) (x : Expr) :
    (rendering g x).strength = Strength.ternary ∨ Strength.or ≤ (rendering g x).strength := by
  cases x with
  | binary op left right =>
    right
    change Strength.or ≤ binaryStrength op
    cases op <;> decide
  | call callee typeArgs args =>
    right
    by_cases h : ∃ base property, callee = .member base property
    · obtain ⟨base, property, rfl⟩ := h
      exact (strength_memberCall g base _ property typeArgs _).ge.trans' (by decide)
    · rw [rendering, lowerExpr_call (by simpa using h)]
      exact show Strength.or ≤ Strength.call by decide
  | switch discriminant cases lifts =>
    obtain ⟨value, arms, hswitch⟩ : ∃ value arms,
        lowerExpr (.switch discriminant cases lifts) = lowerSwitch value arms lifts := by
      cases discriminant <;> exact ⟨_, _, rfl⟩
    rw [rendering, hswitch]
    cases lifts with
    | false => exact .inl rfl
    | true => exact .inr (show Strength.or ≤ Strength.call by decide)
  | ternary test consequent alternate => exact .inl rfl
  | unary op operand => exact .inr (show Strength.or ≤ Strength.unary by decide)
  | member base property | history target offset
  | conditional branches last lifts => exact .inr (show Strength.or ≤ Strength.call by decide)
  | _ => exact .inr (show Strength.or ≤ Strength.primary by decide)

section

variable {g : Generator} {x : Expr} {tree : Script.Expr}

/-- Where a strength is asked for, the text has it or stands in parentheses. -/
theorem Rereads.within (h : Rereads g x tree) (n : Nat) :
    Written n ((rendering g x).within n) tree := by
  unfold Rendered.within
  split
  · exact h.enclosed (terminates_mayFollow _ _) endsNumber n
  · exact h.mono (terminates_mayFollow _ _) (by omega)

/-- Where no more is asked for than the text has, there are no parentheses. -/
theorem Rereads.bare (h : Rereads g x tree) {m n} (hm : m ≤ n) (hn : n ≤ (rendering g x).strength) :
    Written n ((rendering g x).within m) tree := by
  rw [Rendered.within, if_neg (by omega)]
  exact h.mono (terminates_mayFollow _ _) hn

/-- Everything binds as strongly as a choice. -/
theorem Rereads.value (h : Rereads g x tree) {m} (hm : m ≤ Strength.ternary) :
    Written 2 ((rendering g x).within m) tree := by
  refine h.bare hm ?_
  rcases strength_rendering g x with hs | hs
  · exact hs.ge
  · exact hs.trans' (by decide)

theorem Rereads.test (h : Rereads g x tree) :
    Written 4 ((rendering g x).within (Strength.ternary + 1)) tree := by
  have hsame : (rendering g x).within (Strength.ternary + 1) =
    (rendering g x).within Strength.or := by
    unfold Rendered.within
    rcases strength_rendering g x with hs | hs
    · rw [hs, if_pos (by decide), if_pos (by decide)]
    · have : Strength.ternary + 1 ≤ Strength.or := by decide
      rw [if_neg (by omega), if_neg (by omega)]
  rw [hsame]
  exact h.within Strength.or

theorem Rereads.base (h : Rereads g x tree) :
    WrittenBefore endsNumber 18 ((rendering g x).within Strength.call) tree :=
  h.within Strength.call

/-- A point may follow anything but a whole numeral. -/
theorem Rereads.object (h : Rereads g x tree) (hwhole : isWhole x = false) :
    WrittenBefore endsName 18 ((rendering g x).within Strength.call) tree := by
  unfold Rendered.within
  split
  · exact h.enclosed (terminates_mayFollow _ _) endsName 18
  · rename_i hstrength
    have hfollow : mayFollow x (rendering g x) = endsName := by
      rw [mayFollow, hwhole, decide_eq_false hstrength]
      rfl
    exact h.mono (by simp [hfollow]) (show Strength.call ≤ _ by omega)

theorem Rereads.ofText? (h : Rereads g x tree) :
    Script.Expr.ofText? ((lowerExpr x).text.run g).1 = some tree :=
  (h.value (show Strength.lowest ≤ Strength.ternary by decide)).ofText?

end

/-! ## Names and literals -/

theorem rereads_atom {g x text} {after : Char → Bool} {tree}
    (hx : rendering g x = ⟨text, Strength.primary⟩)
    (h : Script.Prints after ⟨text, Script.Strength.primary⟩ tree)
    (hafter : after = if isWhole x then endsNumber else endsName) : Rereads g x tree := by
  have hfollow : mayFollow x (rendering g x) = after := by
    rw [hafter, mayFollow, hx]
    simp [Strength.call, Strength.primary]
  rw [Rereads, hfollow, hx]
  exact h.writtenBefore

/-- The script's tree of a number that has no sign; infinity has a name. -/
def numberTree? : Number.Double → Option Script.Expr
  | .finite false x => some (.num (.finite false x))
  | .infinite false => some (.ident "Infinity")
  | .nan => some (.ident "NaN")
  | _ => none

theorem rereads_number {value tree} (h : numberTree? value = some tree) (g : Generator) :
    Rereads g (.float value) tree := by
  have hx : rendering g (.float value) = ⟨value.literal, Strength.primary⟩ := rfl
  unfold numberTree? at h
  split at h
  · obtain rfl := some.inj h
    rename_i x
    by_cases hpoint : '.' ∈ x.digits.positional.toList
    · exact rereads_atom hx (Script.prints_fraction hpoint) (by simp [isWhole, hpoint])
    · exact rereads_atom hx (Script.prints_magnitude x) (by simp [isWhole, hpoint])
  iterate 2
    · obtain rfl := some.inj h
      exact rereads_atom hx (Script.prints_ident rfl (by decide)) rfl
  · cases h

theorem rereads_ident {name} (h : Script.BindingName (bindingName name)) (g : Generator) :
    Rereads g (.ident name) (.ident (bindingName name)) :=
  rereads_atom rfl (Script.prints_ident h.1 h.2) rfl

/-! ## Operators -/

/-- The operator of the script. -/
def scriptBinary : BinaryOp → Script.BinaryOp
  | .add => .add
  | .sub => .sub
  | .mul => .mul
  | .div => .div
  | .mod => .mod
  | .eq => .eq
  | .notEq => .notEq
  | .lt => .lt
  | .ltEq => .ltEq
  | .gt => .gt
  | .gtEq => .gtEq
  | .and => .and
  | .or => .or

/-- The operator of the script. -/
def scriptUnary : UnaryOp → Script.UnaryOp
  | .neg => .neg
  | .plus => .plus
  | .not => .not

theorem binaryText_eq (op : BinaryOp) : binaryText op = (scriptBinary op).text := by
  cases op <;> rfl

/-- The two tables of strengths agree. -/
theorem binaryStrength_eq (op : BinaryOp) : binaryStrength op = (scriptBinary op).precedence := by
  cases op <;> rfl

/-- Signs in front of signs are kept apart as the printer of scripts does it. -/
theorem signed_eq (op : UnaryOp) (operand : String) :
    signed op operand = Script.unaryText (scriptUnary op) operand := by
  have hsign : (unarySign op).toString = (scriptUnary op).text := by cases op <;> rfl
  rw [signed, hsign]
  cases op with
  | not => simp [Script.unaryText, scriptUnary, Script.UnaryOp.isWord]
  | neg =>
    cases hbegins : Text.beginsWith '-' operand <;>
      simp [Script.unaryText, scriptUnary, Script.UnaryOp.isWord, unarySign, hbegins,
        String.append_assoc]
  | plus =>
    cases hbegins : Text.beginsWith '+' operand <;>
      simp [Script.unaryText, scriptUnary, Script.UnaryOp.isWord, unarySign, hbegins,
        String.append_assoc]

section

variable {g : Generator} {x y z : Expr} {a b c : Script.Expr}

/-- A text that binds weaker than a call is read as it is printed. -/
theorem rereads_operator {n text} (hx : rendering g x = ⟨text, n⟩) (hn : n < Strength.call) {m}
    (h : Script.Prints endsNumber ⟨text, m⟩ a) (hnm : n ≤ m) : Rereads g x a := by
  have hfollow : mayFollow x (rendering g x) = endsNumber := by simp [mayFollow, hx, hn]
  rw [Rereads, hfollow, hx]
  exact h.writtenBefore.mono (fun _ => id) hnm

/-- A text that binds like a call may be followed by a point. -/
theorem rereads_access {text} (hx : rendering g x = ⟨text, Strength.call⟩)
    (hwhole : isWhole x = false) (h : WrittenBefore endsName 18 text a) : Rereads g x a := by
  have hfollow : mayFollow x (rendering g x) = endsName := by simp [mayFollow, hx, hwhole]
  rw [Rereads, hfollow, hx]
  exact h

theorem Rereads.binary (op : BinaryOp) (hx : Rereads g x a) (hy : Rereads (passed g x) y b) :
    Rereads g (.binary op x y) (.binary (scriptBinary op) a b) := by
  have hrendering : rendering g (.binary op x y) =
      ⟨(rendering g x).within (binaryStrength op) ++ " " ++ binaryText op ++ " " ++
        (rendering (passed g x) y).within (binaryStrength op + 1), binaryStrength op⟩ := rfl
  refine rereads_operator hrendering (by cases op <;> decide) ?_ (binaryStrength_eq op).le
  rw [binaryText_eq, binaryStrength_eq]
  exact Script.Written.binary (scriptBinary op) (hx.within _) (hy.within _)

theorem Rereads.unary (op : UnaryOp) (hx : Rereads g x a) :
    Rereads g (.unary op x) (.unary (scriptUnary op) a) := by
  have hrendering : rendering g (.unary op x) =
      ⟨signed op ((rendering g x).within Strength.unary), Strength.unary⟩ := rfl
  refine rereads_operator hrendering (by decide) ?_ (Nat.le_refl _)
  rw [signed_eq]
  exact Script.Written.unary (scriptUnary op) (hx.within Strength.unary)

theorem Rereads.ternary (hx : Rereads g x a) (hy : Rereads (passed g x) y b)
    (hz : Rereads (passed (passed g x) y) z c) :
    Rereads g (.ternary x y z) (.conditional a b c) := by
  have hrendering : rendering g (.ternary x y z) =
    ⟨(rendering g x).within (Strength.ternary + 1) ++ " ? " ++
        (rendering (passed g x) y).within Strength.ternary ++ " : " ++
        (rendering (passed (passed g x) y) z).within Strength.ternary, Strength.ternary⟩ := rfl
  exact rereads_operator hrendering (by decide)
    (Script.Written.choice hx.test (hy.value (Nat.le_refl _)) (hz.value (Nat.le_refl _)))
    (by decide)

theorem Rereads.history (hx : Rereads g x a) (hy : Rereads (passed g x) y b) :
    Rereads g (.history x y) (.index a b) := by
  have hrendering : rendering g (.history x y) = ⟨(rendering g x).within Strength.call ++ "[" ++
        (rendering (passed g x) y).within Strength.lowest ++ "]", Strength.call⟩ := rfl
  exact rereads_access hrendering rfl (hx.base.index (hy.within Strength.lowest))

/-- The texts of expressions between commas. -/
def itemTexts (g : Generator) (xs : List Expr) : List String :=
  (((lowerExprs xs).mapM (·.within Strength.argument) : Gen (List String)).run g).1

theorem RereadsAll.texts {xs trees} (h : RereadsAll g xs trees) :
    List.Forall₂ (Written 2) (itemTexts g xs) trees := by
  induction h with
  | nil => exact .nil
  | @cons g x xs tree trees first rest ih =>
    have hcons : itemTexts g (x :: xs) =
        (rendering g x).within Strength.argument :: itemTexts (passed g x) xs := by
      change ((List.mapM _ (lowerExpr x :: lowerExprs xs) : Gen (List String)).run g).1 = _
      rw [List.mapM_cons]
      rfl
    rw [hcons]
    exact .cons (first.value (by decide)) ih

theorem RereadsAll.tuple {xs trees} (h : RereadsAll g xs trees) :
    Rereads g (.tuple xs) (.array trees) := by
  have hrendering : rendering g (.tuple xs) =
      ⟨"[" ++ Script.commas (itemTexts g xs) ++ "]", Strength.primary⟩ := rfl
  exact rereads_atom hrendering
    (Script.prints_array (h.texts.imp fun _ _ hitem => hitem.element rfl rfl)) rfl

end

/-! ## Expressions made of operators -/

mutual
/-- The tree that an expression of names, literals and operators stands for in a script; history is
an index and a tuple an array.  Names have to be free for the script to bind, and literals have no
sign. -/
def operatorTree? : Expr → Option Script.Expr
  | .ident name => if Script.BindingName (bindingName name) then some (.ident (bindingName name))
    else none
  | .int value => some (.nat value)
  | .float value => numberTree? value
  | .str value | .color value => some (.str value)
  | .bool value => some (.lit (.bool value))
  | .na => some (.ident "NaN")
  | .binary op left right => do
    return .binary (scriptBinary op) (← operatorTree? left) (← operatorTree? right)
  | .unary op operand => do return .unary (scriptUnary op) (← operatorTree? operand)
  | .ternary test consequent alternate => do
    return .conditional (← operatorTree? test) (← operatorTree? consequent)
      (← operatorTree? alternate)
  | .history target offset => do return .index (← operatorTree? target) (← operatorTree? offset)
  | .tuple items => do return .array (← operatorTrees? items)
  | .call _ _ _ | .member _ _ | .conditional _ _ _ | .switch _ _ _ => none

/-- The trees of the items of a tuple. -/
def operatorTrees? : List Expr → Option (List Script.Expr)
  | [] => some []
  | x :: rest => do return (← operatorTree? x) :: (← operatorTrees? rest)
end

mutual
/-- Made of operators, an expression is read as its tree in every state. -/
theorem rereads_operatorTree : (x : Expr) → {tree : Script.Expr} → operatorTree? x = some tree →
    (g : Generator) → Rereads g x tree
  | .ident name, tree, h, g => by
    simp only [operatorTree?, Option.ite_none_right_eq_some, some.injEq] at h
    obtain ⟨hname, rfl⟩ := h
    exact rereads_ident hname g
  | .int value, tree, h, g => by
    obtain rfl := some.inj h
    exact rereads_atom rfl (Script.prints_nat value) rfl
  | .float value, tree, h, g => rereads_number h g
  | .str value, tree, h, g | .color value, tree, h, g => by
    obtain rfl := some.inj h
    exact rereads_atom rfl (Script.prints_str value) rfl
  | .bool value, tree, h, g => by
    obtain rfl := some.inj h
    exact rereads_atom rfl (Script.prints_bool value) rfl
  | .na, tree, h, g => by
    obtain rfl := some.inj h
    exact rereads_atom rfl
      (Script.prints_ident (show Script.isName "NaN" = true from rfl) (by decide)) rfl
  | .binary op left right, tree, h, g => by
    simp only [operatorTree?, bind_eq_bind, bind_eq_some_iff, pure_def,
      some.injEq] at h
    obtain ⟨l, hl, r, hr, rfl⟩ := h
    exact (rereads_operatorTree left hl g).binary op (rereads_operatorTree right hr _)
  | .unary op operand, tree, h, g => by
    simp only [operatorTree?, bind_eq_bind, bind_eq_some_iff, pure_def,
      some.injEq] at h
    obtain ⟨a, ha, rfl⟩ := h
    exact (rereads_operatorTree operand ha g).unary op
  | .ternary test consequent alternate, tree, h, g => by
    simp only [operatorTree?, bind_eq_bind, bind_eq_some_iff, pure_def,
      some.injEq] at h
    obtain ⟨t, ht, c, hc, a, ha, rfl⟩ := h
    exact (rereads_operatorTree test ht g).ternary (rereads_operatorTree consequent hc _)
      (rereads_operatorTree alternate ha _)
  | .history target offset, tree, h, g => by
    simp only [operatorTree?, bind_eq_bind, bind_eq_some_iff, pure_def,
      some.injEq] at h
    obtain ⟨t, ht, o, ho, rfl⟩ := h
    exact (rereads_operatorTree target ht g).history (rereads_operatorTree offset ho _)
  | .tuple items, tree, h, g => by
    simp only [operatorTree?, bind_eq_bind, bind_eq_some_iff, pure_def,
      some.injEq] at h
    obtain ⟨trees, htrees, rfl⟩ := h
    exact (rereadsAll_operatorTrees items htrees g).tuple
  | .call _ _ _, _, h, _ | .member _ _, _, h, _ | .conditional _ _ _, _, h, _
  | .switch _ _ _, _, h, _ => by simp [operatorTree?] at h

theorem rereadsAll_operatorTrees : (xs : List Expr) → {trees : List Script.Expr} →
    operatorTrees? xs = some trees → (g : Generator) → RereadsAll g xs trees
  | [], trees, h, g => by
    obtain rfl := some.inj h
    exact .nil
  | x :: rest, trees, h, g => by
    simp only [operatorTrees?, bind_eq_bind, bind_eq_some_iff, pure_def,
      some.injEq] at h
    obtain ⟨tree, htree, more, hmore, rfl⟩ := h
    exact .cons (rereads_operatorTree x htree g) (rereadsAll_operatorTrees rest hmore _)
end

/-- Lowered in any state, an expression made of operators is a text that is its tree and nothing
else. -/
theorem ofText?_operators {x : Expr} {tree : Script.Expr} (h : operatorTree? x = some tree)
    (g : Generator) : Script.Expr.ofText? ((lowerExpr x).text.run g).1 = some tree :=
  (rereads_operatorTree x h g).ofText?

/-- `(a or not b ? -(-let) : na)[1 + 2] * ((b == na) < [a, "s"])` -/
def nestedOperators : Expr :=
  .binary .mul (.history (.ternary (.binary .or (.ident "a") (.unary .not (.ident "b")))
        (.unary .neg (.unary .neg (.ident "let"))) .na)
      (.binary .add (.int 1) (.int 2)))
    (.binary .lt (.binary .eq (.ident "b") .na) (.tuple [.ident "a", .str "s"]))

/-- The tree of `nestedOperators`. -/
def nestedOperatorsTree : Script.Expr :=
  .binary .mul (.index (.conditional (.binary .or (.ident "a") (.unary .not (.ident "b")))
        (.unary .neg (.unary .neg (.ident "let_"))) (.ident "NaN"))
      (.binary .add (.nat 1) (.nat 2)))
    (.binary .lt (.binary .eq (.ident "b") (.ident "NaN")) (.array [.ident "a", .str "s"]))

theorem nestedOperators_ofText? : operatorTree? nestedOperators = some nestedOperatorsTree ∧
    Script.Expr.ofText? ((lowerExpr nestedOperators).text.run .initial).1 =
      some nestedOperatorsTree :=
  ⟨rfl, ofText?_operators rfl .initial⟩

end IndicatorCompiler.Lowering
