import IndicatorCompiler.Proofs.ReadingStrengths

/-!
# Reading expressions

One lemma per form of expression: from what its parts are read as, and with what strength, to what
the whole is read as.  The tokens of a form are written out in the order in which they stand.
-/

namespace IndicatorCompiler.Script

open Grammar IndicatorCompiler.Script.Parser
open Parsing (Steps)
open List (cons_ne_nil length_cons length_append mem_cons)

/-! ## Tokens of operators -/

/-- The token of an operator between operands. -/
def BinaryOp.punct : BinaryOp → Punct
  | .add => .plus
  | .sub => .minus
  | .mul => .star
  | .div => .slash
  | .mod => .percent
  | .eq => .eqEq
  | .notEq => .notEq
  | .strictEq => .strictEq
  | .strictNotEq => .strictNotEq
  | .lt => .lt
  | .ltEq => .ltEq
  | .gt => .gt
  | .gtEq => .gtEq
  | .and => .andAnd
  | .or => .orOr
  | .nullish => .nullish

/-- The token of an assignment. -/
def AssignOp.punct : AssignOp → Punct
  | .assign => .eq
  | .add => .plusEq
  | .sub => .minusEq
  | .mul => .starEq
  | .div => .slashEq
  | .mod => .percentEq

/-- The token of an operator that counts. -/
def UpdateOp.punct : UpdateOp → Punct
  | .increment => .plusPlus
  | .decrement => .minusMinus

/-- The token of an operator in front of its operand. -/
def UnaryOp.kind : UnaryOp → Kind
  | .neg => .punct .minus
  | .plus => .punct .plus
  | .not => .punct .bang
  | .typeOf => .ident "typeof"
  | .void => .ident "void"
  | .delete => .ident "delete"

@[simp] theorem binaryOp?_punct (op : BinaryOp) : binaryOp? (.punct op.punct) = some op := by
  cases op <;> rfl

@[simp] theorem assignOp?_punct (op : AssignOp) : assignOp? (.punct op.punct) = some op := by
  cases op <;> rfl

@[simp] theorem updateOp?_punct (op : UpdateOp) : updateOp? (.punct op.punct) = some op := by
  cases op <;> rfl

@[simp] theorem unaryOp?_kind (op : UnaryOp) : unaryOp? op.kind = some op := by cases op <;> rfl

/-- An operator stops what binds tighter than it. -/
theorem stops_binary (op : BinaryOp) : stops (op.precedence + 1) (.punct op.punct) = true := by
  cases op <;> decide

theorem stops_assign (op : AssignOp) : stops 3 (.punct op.punct) = true := by cases op <;> decide

theorem stops_update (op : UpdateOp) : stops 17 (.punct op.punct) = true := by cases op <;> decide

theorem precedence_bounds (op : BinaryOp) : 4 ≤ op.precedence ∧ op.precedence ≤ 13 := by
  cases op <;> decide

/-! ## Atoms -/

namespace Reads

variable {n : Nat} {ks : List Kind} {e : Expr}

/-- What can start an atom can start anything. -/
theorem opensWith_atom {k} (h : opensWith 19 k = true) (m : Nat) : opensWith m k = true := by
  simp only [opensWith, Bool.and_eq_true, Bool.or_eq_true, decide_eq_true_eq] at h ⊢
  exact ⟨⟨h.1.1, .inr (h.1.2.resolve_left (by decide))⟩, .inr (h.2.resolve_left (by decide))⟩

theorem token {k} (hopens : opensWith 19 k = true) (hplain : k.isPlain = true)
    (hnoArrow : NoArrow [k]) (h : ReadsBy primary (fun _ => True) [k] e) : Reads n [k] e :=
  of_atom (fun m => opens_cons (opensWith_atom hopens m)) (balanced_nil.cons hplain) hnoArrow h

theorem ident {name} (hname : name ∉ reservedWords) : Reads n [.ident name] (.ident name) := by
  have hopens : opensWith 19 (.ident name) = true := by
    simp only [reservedWords, mem_cons, not_or] at hname
    simp [opensWith, unaryOp?, updateOp?, reservedWords, hname]
  refine token hopens rfl (noArrow_ident name) fun depth s s' _ hs _ => ?_
  obtain ⟨-, hk, rfl⟩ := spans_singleton_iff.mp hs
  rw [primary, kind_bind_iff, hk]
  simp only [reservedWords, mem_cons, not_or] at hname
  split <;> simp_all [reservedWords]

theorem num (value : Number.Double) : Reads n [.num value] (.num value) := by
  refine token rfl rfl (noArrow_cons rfl) ?_
  unfold primary
  exact .kind (.advance (.of .pure))

theorem str (value : String) : Reads n [.str value] (.str value) := by
  refine token rfl rfl (noArrow_cons rfl) ?_
  unfold primary
  exact .kind (.advance (.of .pure))

theorem bool (value : Bool) :
    Reads n [.ident (if value then "true" else "false")] (.lit (.bool value)) := by
  cases value with
  | false | true =>
    refine token (by decide) rfl (noArrow_cons (by decide)) ?_
    unfold primary
    exact .kind (.advance (.of .pure))

theorem null : Reads n [.ident "null"] (.lit .null) := by
  refine token (by decide) rfl (noArrow_cons (by decide)) ?_
  unfold primary
  exact .kind (.advance (.of .pure))

theorem opens_bracket {p} (hp : p.opensBracket = true) (m : Nat) :
    opensWith m (.punct p) = true := by
  refine opensWith_atom ?_ m
  cases p <;> first
    | exact absurd hp (by decide)
    | rfl

theorem parens {m} (h : Reads m ks e) : Reads n (.punct .lParen :: (ks ++ [.punct .rParen])) e := by
  refine of_atom (fun m => opens_cons (opens_bracket rfl m))
    (.brackets rfl rfl h.balanced balanced_nil) (noArrow_parens h.balanced) ?_
  unfold primary
  refine .kind (.advance (h.expression.nestedExpression.bind rfl ?_))
  exact .of (.punct (.of .pure))

theorem array {items} (h : ReadsItems .rBracket Grammar.element ks items)
    (hbalanced : Balanced ks) :
    Reads n (.punct .lBracket :: (ks ++ [.punct .rBracket])) (.array items) := by
  refine of_atom (fun m => opens_cons (opens_bracket rfl m))
    (.brackets rfl rfl hbalanced balanced_nil) (noArrow_cons rfl) ?_
  unfold primary
  exact .kind (.advance (.last (.of (h.closed (by decide)))))

theorem object {properties} (h : ReadsItems .rBrace Grammar.property ks properties)
    (hbalanced : Balanced ks) :
    Reads n (.punct .lBrace :: (ks ++ [.punct .rBrace])) (.object properties) := by
  refine of_atom (fun m => opens_cons (opens_bracket rfl m))
    (.brackets rfl rfl hbalanced balanced_nil) (noArrow_cons rfl) ?_
  unfold primary
  exact .kind (.advance (.last (.of (h.closed (by decide)))))

end Reads

/-! ## Accesses and calls -/

variable {args : List Expr} {nested : Nested}

section

variable {ks : List Kind}

theorem readsBy_access_member (name : String) :
    ReadsBy access? (fun _ => True) [.punct .dot, .ident name] (some (.member name)) := by
  unfold access?
  exact .kind (.advance (.of (.token (by simp) (.of .pure))))

theorem readsBy_access_index {n i} (h : Reads n ks i) :
    ReadsBy access? (fun _ => True) (.punct .lBracket :: (ks ++ [.punct .rBracket]))
      (some (.index i)) := by
  unfold access?
  refine .kind (.advance (h.expression.nestedExpression.bind rfl ?_))
  exact .of (.punct (.of .pure))

/-- An access that starts with no parenthesis is a suffix. -/
theorem ReadsWith.suffix_of_access {k} (hk : k ≠ .punct .lParen) {access}
    (h : ReadsBy access? (fun _ => True) (k :: ks) access) :
    ReadsBy suffix? (fun _ => True) (k :: ks) access := by
  intro depth s s' hdepth hs hstop
  rw [suffix?, atPunct_bind_iff, hs.current, beq_eq_false_iff_ne.mpr hk]
  simp only [Bool.false_eq_true, if_false]
  exact h hdepth hs hstop

theorem readsBy_arguments (h : ReadsItems .rParen Grammar.element ks args) :
    ReadsBy arguments (fun _ => True) (.punct .lParen :: (ks ++ [.punct .rParen])) args := by
  unfold arguments
  exact .punct (.of (h.closed (by decide)))

theorem readsBy_suffix_call (h : ReadsItems .rParen Grammar.element ks args) :
    ReadsBy suffix? (fun _ => True) (.punct .lParen :: (ks ++ [.punct .rParen]))
      (some (.call args)) := by
  unfold suffix?
  refine .look (P := (· = .punct .lParen)) rfl (a := true) (by simp [atPunct]) ?_
  exact (readsBy_arguments h).last

end

namespace Reads

variable {n : Nat} {ks ks' : List Kind} {e : Expr}

theorem snoc {k last} (h : Reads 18 ks e) (hk : k ≠ .punct .arrow) (hbalanced : Balanced (k :: ks'))
    (hlast : ReadsBy suffix? (fun _ => True) (k :: ks') (some last)) :
    Reads 18 (ks ++ k :: ks') (last.apply e) :=
  of_spine (h.opens.append _) (h.balanced.append hbalanced)
    ((h.noArrow (by omega)).append (by simpa using hk))
    ((h.spine (by omega)).snoc hlast (cons_ne_nil _ _))

theorem member (h : Reads 18 ks e) (name : String) :
    Reads 18 (ks ++ [.punct .dot, .ident name]) (.member e name) :=
  h.snoc (by decide) ((balanced_nil.cons rfl).cons rfl)
    ((readsBy_access_member name).suffix_of_access (by decide))

theorem index {i} (h : Reads 18 ks e) (hi : Reads n ks' i) :
    Reads 18 (ks ++ .punct .lBracket :: (ks' ++ [.punct .rBracket])) (.index e i) :=
  h.snoc (by decide) (.brackets rfl rfl hi.balanced balanced_nil)
    ((readsBy_access_index hi).suffix_of_access (by decide))

theorem call (h : Reads 18 ks e)
    (hargs : ReadsItems .rParen Grammar.element ks' args) (hbalanced : Balanced ks') :
    Reads 18 (ks ++ .punct .lParen :: (ks' ++ [.punct .rParen])) (.call e args) :=
  h.snoc (by decide) (.brackets rfl rfl hbalanced balanced_nil) (readsBy_suffix_call hargs)

/-! ## Operators -/

theorem unaryOperator (op : UnaryOp) (h : Reads 15 ks e) :
    Reads 15 (op.kind :: ks) (.unary op e) := by
  refine of_unary (opens_cons ?_) (h.balanced.cons ?_) (noArrow_cons ?_) ?_
  · cases op <;> decide
  · cases op <;> rfl
  · cases op <;> decide
  · unfold Grammar.unary
    refine .kind ?_
    simp only [unaryOp?_kind]
    exact .advance (h.unary (Nat.le_refl 15)).nestedUnary.last

theorem prefixUpdate (op : UpdateOp) (h : Reads 15 ks e) :
    Reads 15 (.punct op.punct :: ks) (.update op true e) := by
  refine of_unary (opens_cons ?_) (h.balanced.cons ?_) (noArrow_cons ?_) ?_
  · cases op <;> decide
  · cases op <;> rfl
  · cases op <;> decide
  · have hunary : unaryOp? (.punct op.punct) = none := by cases op <;> rfl
    unfold Grammar.unary
    refine .kind ?_
    simp only [hunary]
    refine .kind ?_
    simp only [updateOp?_punct]
    exact .advance (h.unary (Nat.le_refl 15)).nestedUnary.last

theorem postfixUpdate (op : UpdateOp) (h : Reads 17 ks e) :
    Reads 16 (ks ++ [.punct op.punct]) (.update op false e) := by
  refine of_updated ((h.opens.mono (by omega)).append _)
    (h.balanced.append (balanced_nil.cons ?_)) ((h.noArrow (by omega)).append ?_) ?_
  · cases op <;> rfl
  · cases op <;> decide
  · unfold Grammar.updated
    refine (h.spine (Nat.le_refl 17)).suffixed.bind (stops_mono (by omega) (stops_update op))
      (.kind ?_)
    simp only [updateOp?_punct]
    exact .advance (.of .pure)

/-- Operators of one precedence group from the left: on their left side stand operators of the same
precedence, on their right side tighter ones. -/
theorem binary (op : BinaryOp) {l r} (hl : Reads op.precedence ks l)
    (hr : Reads (op.precedence + 1) ks' r) :
    Reads op.precedence (ks ++ .punct op.punct :: ks') (.binary op l r) := by
  obtain ⟨hlow, hhigh⟩ := precedence_bounds op
  refine of_chain hlow (by omega) (hl.opens.append _) (hl.balanced.append (hr.balanced.cons ?_))
    ((hl.noArrow (by omega)).append ?_) ?_
  · cases op <;> rfl
  · cases op <;> simp [BinaryOp.punct]
  · obtain ⟨first, more, rfl, hchain⟩ := hl.chain (by omega) hlow (Nat.le_refl _)
    refine ⟨first, more ++ [(op, r)], by simp [chained], fun depth s s' hdepth hs hstop => ?_⟩
    simp only [length_append, length_cons] at hdepth
    obtain ⟨s₁, hs₁, hop⟩ := spans_append_iff.mp hs
    obtain ⟨s₀, hfirst, hmore⟩ := hchain (show ks.length ≤ depth by omega) hs₁
      (by rw [hop.current]; exact stops_binary op)
    have hright := (hr.chain (by omega) (by omega) (Nat.le_refl _)).binary.nestedBinary
      (show ks'.length < depth by omega) hop.tail hstop
    have hoperation : Succeeds (operation? (Grammar.nested depth) op.precedence) s₁
        (some (op, r)) s' := by
      rw [operation?, kind_bind_iff, hop.current, binaryOp?_punct]
      simp only [Nat.lt_irrefl, if_false]
      rw [advance_bind_iff, hright.bind_iff]
      simp
    refine ⟨s₀, hfirst, hmore.snoc hoperation ?_⟩
    have hlong := hop.length
    simp only [length_cons] at hlong
    show s'.rest.length < s₁.rest.length
    omega

theorem choice {t c a kt kc ka} (ht : Reads 4 kt t) (hc : Reads 2 kc c) (ha : Reads 2 ka a) :
    Reads 3 (kt ++ .punct .question :: (kc ++ .punct .colon :: ka)) (.conditional t c a) := by
  refine of_conditional ((ht.opens.mono (by omega)).append _)
    (ht.balanced.append ((hc.balanced.append (ha.balanced.cons rfl)).cons rfl))
    ((ht.noArrow (by omega)).append (by simp)) ?_
  have htest := (ht.chain (by omega) (Nat.le_refl 4) (Nat.le_refl 4)).binary
  unfold Grammar.conditional
  simp only [binary_zero]
  exact htest.bind rfl (.eat (hc.inside.bind rfl (.of (.punct ha.inside.last))))

theorem assign (op : AssignOp) {t v} (ht : Reads 4 ks t)
    (htarget : isAssignable op t = true) (hv : Reads 2 ks' v) :
    Reads 2 (ks ++ .punct op.punct :: ks') (.assign op t v) := by
  have harrow : Kind.punct op.punct ≠ .punct .arrow := by cases op <;> decide
  refine of_assignment ((ht.opens.mono (by omega)).append _)
    (ht.balanced.append (hv.balanced.cons ?_)) ?_
  · cases op <;> rfl
  · intro depth s s' hdepth hs hstop
    simp only [length_append, length_cons] at hdepth
    obtain ⟨s₁, hs₁, hop⟩ := spans_append_iff.mp hs
    have hhead := (ht.noArrow (by omega)).isArrowHead hs₁ (by rwa [hop.current])
    have hread := (ht.chain (by omega) (Nat.le_refl 4) (Nat.le_refl 4)).conditional
      (show ks.length ≤ depth by omega) hs₁ (by rw [hop.current]; exact stops_assign op)
    have hvalue := (hv.assignment (Nat.le_refl 2)).nestedAssignment
      (show ks'.length < depth by omega) hop.tail hstop
    rw [Grammar.assignment, succeeds_get_bind_iff, hhead]
    simp only [Bool.false_eq_true, if_false]
    rw [hread.bind_iff, kind_bind_iff, hop.current, assignOp?_punct]
    simp only [htarget, if_true]
    rw [advance_bind_iff, hvalue.bind_iff]
    simp

theorem sequence {e' es kss} (h : List.Forall₂ (Reads 2) (ks :: ks' :: kss) (e :: e' :: es)) :
    Reads 1 (commaKinds (ks :: ks' :: kss)) (.sequence (e :: e' :: es)) := by
  have hread := readsBy_itemsOne (fun k => stops 0 k = true)
    (h.imp fun ks e (hread : Reads 2 ks e) => (hread.assignment (Nat.le_refl 2)).mono fun k hk =>
      show stops 2 k = true by
        rcases hk with rfl | hk
        · rfl
        · exact stops_mono (by omega) hk)
  have hbalanced := balanced_of_forall₂ h Reads.balanced
  cases h with
  | cons hfirst _ =>
    refine of_expression ((hfirst.opens.mono (by omega)).append _) hbalanced ?_
    intro depth s s' hdepth hs hstop
    have hitems : Succeeds (Parsing.itemsOne (eatPunct .comma)
        (Grammar.assignment (Grammar.nested depth))) s _ s' :=
      hread hdepth hs ⟨hstop, ne_comma_of_stops (by omega) hstop⟩
    rw [Grammar.expression, hitems.bind_iff]
    simp

end Reads

/-! ## Elements and properties -/

section

variable {ks ks' : List Kind} {e : Expr} {close : Punct} {k : Kind}

/-- The close of a list stops what stands between commas. -/
theorem stops_comma_or (hclose : stops 2 (.punct close) = true)
    (hk : k = .punct .comma ∨ k = .punct close) : stops 2 k = true := by
  rcases hk with rfl | rfl
  · rfl
  · exact hclose

/-- Only what opens an expression opens an item. -/
theorem Opens.head?_ne {n} (h : Opens n ks) (hk : opensWith n k = false) : ks.head? ≠ some k := by
  obtain ⟨k', rest, rfl, hk'⟩ := h
  rintro ⟨⟩
  simp [hk] at hk'

theorem Reads.element (h : Reads 2 ks e) (hclose : stops 2 (.punct close) = true)
    (hopens : opensWith 2 (.punct close) = false) :
    ItemPhrase close Grammar.element ks e where
  nonempty := h.ne_nil
  opens := h.opens.head?_ne hopens
  read := by
    unfold Grammar.element
    refine .eat_absent (h.opens.leading ?_) (h.inside.mono fun _ => stops_comma_or hclose)
    rintro k hk rfl
    exact absurd hk (by decide)

theorem Reads.spread (h : Reads 2 ks e) (hclose : stops 2 (.punct close) = true)
    (hne : close ≠ .ellipsis) :
    ItemPhrase close Grammar.element (.punct .ellipsis :: ks) (.spread e) where
  nonempty := cons_ne_nil _ _
  opens := by simpa using fun h => hne h.symm
  read := by
    unfold Grammar.element
    exact .of (.eat (h.inside.mono fun _ => stops_comma_or hclose).last)

/-- The tokens are read as the key of a property. -/
structure ReadsKey (ks : List Kind) (key : PropertyKey) : Prop where
  read : ReadsBy propertyKey (fun _ => True) ks key
  balanced : Balanced ks
  nonempty : ks ≠ []
  opens : ks.head? ≠ some (.punct .rBrace)

theorem readsKey_token {key} (hplain : k.isPlain = true)
    (h : ReadsBy propertyKey (fun _ => True) [k] key) : ReadsKey [k] key where
  read := h
  balanced := balanced_nil.cons hplain
  nonempty := cons_ne_nil _ _
  opens := by
    rintro ⟨⟩
    exact absurd hplain (by decide)

theorem readsKey_name (name : String) : ReadsKey [.ident name] (.name name) := by
  refine readsKey_token rfl ?_
  unfold propertyKey
  exact .kind (.advance (.of .pure))

theorem readsKey_str (value : String) : ReadsKey [.str value] (.str value) := by
  refine readsKey_token rfl ?_
  unfold propertyKey
  exact .kind (.advance (.of .pure))

theorem readsKey_num (value : Number.Double) : ReadsKey [.num value] (.str value.literal) := by
  refine readsKey_token rfl ?_
  unfold propertyKey
  exact .kind (.advance (.of .pure))

theorem Reads.computedKey (h : Reads 2 ks e) :
    ReadsKey (.punct .lBracket :: (ks ++ [.punct .rBracket])) (.computed e) where
  read := by
    unfold propertyKey
    exact .kind (.advance (h.inside.bind rfl (.of (.punct (.of .pure)))))
  balanced := .brackets rfl rfl h.balanced balanced_nil
  nonempty := cons_ne_nil _ _
  opens := by simp

theorem itemPhrase_short (name : String) :
    ItemPhrase .rBrace Grammar.property [.ident name] ⟨.name name, .ident name, true⟩ where
  nonempty := cons_ne_nil _ _
  opens := by simp
  read := by
    unfold Grammar.property
    refine .of ((readsKey_name name).read.then (fun _ _ => trivial) (.eat_absent ?_ .pure))
    rintro k (rfl | rfl) <;> decide

theorem ReadsKey.property {key} (hkey : ReadsKey ks key) (h : Reads 2 ks' e) :
    ItemPhrase .rBrace Grammar.property (ks ++ .punct .colon :: ks') ⟨key, e, false⟩ where
  nonempty := by simp
  opens := by
    rw [List.head?_append_of_ne_nil _ hkey.nonempty]
    exact hkey.opens
  read := by
    unfold Grammar.property
    refine .of (hkey.read.bind trivial (.eat ?_))
    exact (h.inside.mono fun _ => stops_comma_or rfl).last

end

/-! ## Patterns -/

section

variable {ks ks' : List Kind} {stop : Kind → Prop} {e : Expr} {p : Pattern} {close : Punct}
    {k : Kind}

/-- The token begins what a declaration binds. -/
def Kind.opensTarget : Kind → Bool
  | .ident _ | .punct .lBracket | .punct .lBrace => true
  | _ => false

/-- The tokens are read as what a declaration or a parameter binds. -/
structure ReadsTarget (ks : List Kind) (p : Pattern) : Prop where
  read : ReadsBy bindingTarget (fun _ => True) ks p
  balanced : Balanced ks
  opens : ∃ k rest, ks = k :: rest ∧ k.opensTarget = true

theorem ReadsTarget.leading (h : ReadsTarget ks p) (hk : k.opensTarget = false) :
    Leading (· ≠ k) ks stop := by
  obtain ⟨k', rest, rfl, hk'⟩ := h.opens
  rintro rfl
  simp [hk] at hk'

theorem ReadsTarget.inside (h : ReadsTarget ks p) :
    ReadsInside (·.bindingTarget) (fun _ => True) ks p :=
  h.read.nestedTarget

theorem readsTarget_ident {name} (hname : name ∉ reservedWords) :
    ReadsTarget [.ident name] (.ident name) where
  read := by
    unfold bindingTarget
    exact .kind (.token (by simp [hname]) (.of .pure))
  balanced := balanced_nil.cons rfl
  opens := ⟨_, _, rfl, rfl⟩

theorem readsTarget_array {items} (h : ReadsItems .rBracket patternItem ks items)
    (hbalanced : Balanced ks) :
    ReadsTarget (.punct .lBracket :: (ks ++ [.punct .rBracket])) (.array items) where
  read := by
    unfold bindingTarget
    exact .kind (.advance (.last (.of (h.closed (by decide)))))
  balanced := .brackets rfl rfl hbalanced balanced_nil
  opens := ⟨_, _, rfl, rfl⟩

theorem readsTarget_object {properties}
    (h : ReadsItems .rBrace patternProperty ks properties) (hbalanced : Balanced ks) :
    ReadsTarget (.punct .lBrace :: (ks ++ [.punct .rBrace])) (.object properties) where
  read := by
    unfold bindingTarget
    exact .kind (.advance (.last (.of (h.closed (by decide)))))
  balanced := .brackets rfl rfl hbalanced balanced_nil
  opens := ⟨_, _, rfl, rfl⟩

/-! ### Elements of patterns -/

theorem withDefault_none (hstop : ∀ k, stop k → k ≠ .punct .eq) :
    ReadsBy (fun nested => withDefault nested p) stop [] p := by
  unfold withDefault
  exact .eat_absent hstop .pure

theorem withDefault_some (h : Reads 2 ks e) :
    ReadsBy (fun nested => withDefault nested p) (stops 2 · = true) (.punct .eq :: ks)
      (.withDefault p e) := by
  unfold withDefault
  exact .eat h.inside.last

/-- Neither a comma nor the close of a list is the sign of a default. -/
theorem ne_eq_of_comma_or (hclose : stops 2 (.punct close) = true)
    (hk : k = .punct .comma ∨ k = .punct close) : k ≠ .punct .eq := by
  rintro rfl
  exact absurd (stops_comma_or hclose hk) (by decide)

/-- The tokens are an element of a pattern or a parameter. -/
structure ReadsElement (ks : List Kind) (p : Pattern) : Prop where
  read : ReadsInside patternElement (fun k => stops 2 k = true ∧ k ≠ .punct .eq) ks p
  balanced : Balanced ks
  opens : ∃ k rest, ks = k :: rest ∧ (k.opensTarget = true ∨ k = .punct .ellipsis)

theorem ReadsElement.ne_nil (h : ReadsElement ks p) : ks ≠ [] := by
  obtain ⟨k, rest, rfl, -⟩ := h.opens
  exact cons_ne_nil k rest

theorem ReadsElement.head?_ne (h : ReadsElement ks p) (hk : k.opensTarget = false)
    (hk' : k ≠ .punct .ellipsis) : ks.head? ≠ some k := by
  obtain ⟨k', rest, rfl, hopens | hopens⟩ := h.opens
  · rintro ⟨⟩
    simp [hk] at hopens
  · rintro ⟨⟩
    exact hk' hopens

theorem ReadsTarget.element (h : ReadsTarget ks p) : ReadsElement ks p where
  read := by
    unfold patternElement
    refine .eat_absent (h.leading rfl) (h.inside.then (fun _ _ => trivial) (.of ?_))
    exact withDefault_none fun _ hk => hk.2
  balanced := h.balanced
  opens := by
    obtain ⟨k, rest, hks, hk⟩ := h.opens
    exact ⟨k, rest, hks, .inl hk⟩

theorem ReadsTarget.elementWithDefault (h : ReadsTarget ks p) (hvalue : Reads 2 ks' e) :
    ReadsElement (ks ++ .punct .eq :: ks') (.withDefault p e) where
  read := by
    unfold patternElement
    refine .eat_absent (.append fun _ => h.leading rfl) (h.inside.bind trivial (.of ?_))
    exact (withDefault_some hvalue).mono fun _ hk => hk.1
  balanced := h.balanced.append (hvalue.balanced.cons rfl)
  opens := by
    obtain ⟨k, rest, rfl, hk⟩ := h.opens
    exact ⟨k, _, rfl, .inl hk⟩

theorem ReadsTarget.restElement (h : ReadsTarget ks p) :
    ReadsElement (.punct .ellipsis :: ks) (.rest p) where
  read := by
    unfold patternElement
    exact .of (.eat (h.inside.mono fun _ _ => trivial).last)
  balanced := h.balanced.cons rfl
  opens := ⟨_, _, rfl, .inr rfl⟩

theorem ReadsElement.param (h : ReadsElement ks p) : ItemPhrase .rParen patternElement ks p where
  nonempty := h.ne_nil
  opens := h.head?_ne rfl (by decide)
  read := h.read.mono fun _ hk => ⟨stops_comma_or rfl hk, ne_eq_of_comma_or rfl hk⟩

theorem ReadsElement.item (h : ReadsElement ks p) :
    ItemPhrase .rBracket patternItem ks (some p) where
  nonempty := h.ne_nil
  opens := h.head?_ne rfl (by decide)
  read := by
    unfold patternItem
    refine .look (P := (· ≠ .punct .comma)) ?_ (a := false) (by simp [atPunct]) ?_
    · obtain ⟨k, rest, rfl, hk | rfl⟩ := h.opens
      · rintro rfl
        cases hk
      · simp [Leading]
    · exact (h.read.mono fun _ hk => ⟨stops_comma_or rfl hk, ne_eq_of_comma_or rfl hk⟩).last

theorem readsInside_hole : ReadsInside patternItem (· = .punct .comma) [] none := by
  unfold patternItem
  exact .look (P := (· = .punct .comma)) (fun _ => id) (a := true) (by simp [atPunct]) (.of .pure)

/-! ### Properties of patterns -/

theorem ReadsTarget.restProperty (h : ReadsTarget ks p) :
    ItemPhrase .rBrace patternProperty (.punct .ellipsis :: ks) ⟨"", .rest p⟩ where
  nonempty := cons_ne_nil _ _
  opens := by simp
  read := by
    unfold patternProperty
    exact .of (.eat (h.inside.mono fun _ _ => trivial).last)

/-- The key of a property stands in front of what follows it. -/
theorem patternProperty_key {key : String} {property : PatternProperty}
    (h : ReadsInside (fun nested => do
      if ← eatPunct .colon then
        let target ← nested.bindingTarget
        return ⟨key, ← withDefault nested target⟩
      return ⟨key, ← withDefault nested (.ident key)⟩) stop ks property) :
    ReadsInside patternProperty stop (.ident key :: ks) property := by
  unfold patternProperty
  exact .of (.eat_absent (by simp [Leading]) (.token (by simp) h))

theorem ne_colon_of_comma_or (hk : k = .punct .comma ∨ k = .punct .rBrace) : k ≠ .punct .colon := by
  rcases hk with rfl | rfl <;> decide

/-- A name alone is both key and target. -/
theorem itemPhrase_shortTarget (key : String) :
    ItemPhrase .rBrace patternProperty [.ident key] ⟨key, .ident key⟩ where
  nonempty := cons_ne_nil _ _
  opens := by simp
  read := patternProperty_key <| .eat_absent (fun _ => ne_colon_of_comma_or)
    (.last (.of (withDefault_none fun _ => ne_eq_of_comma_or rfl)))

theorem Reads.shortTargetWithDefault (key : String) (h : Reads 2 ks e) :
    ItemPhrase .rBrace patternProperty (.ident key :: .punct .eq :: ks)
      ⟨key, .withDefault (.ident key) e⟩ where
  nonempty := cons_ne_nil _ _
  opens := by simp
  read := patternProperty_key <| .eat_absent (by simp [Leading])
    (.last (.of ((withDefault_some h).mono fun _ => stops_comma_or rfl)))

theorem ReadsTarget.property (key : String) (h : ReadsTarget ks p) :
    ItemPhrase .rBrace patternProperty (.ident key :: .punct .colon :: ks) ⟨key, p⟩ where
  nonempty := cons_ne_nil _ _
  opens := by simp
  read := patternProperty_key <| .of <| .eat <| h.inside.then (fun _ _ => trivial)
    (.last (.of (withDefault_none fun _ => ne_eq_of_comma_or rfl)))

theorem ReadsTarget.propertyWithDefault (key : String) (h : ReadsTarget ks p)
    (hvalue : Reads 2 ks' e) : ItemPhrase .rBrace patternProperty
      (.ident key :: .punct .colon :: (ks ++ .punct .eq :: ks')) ⟨key, .withDefault p e⟩ where
  nonempty := cons_ne_nil _ _
  opens := by simp
  read := patternProperty_key <| .of <| .eat <| h.inside.bind trivial
    (.last (.of ((withDefault_some hvalue).mono fun _ => stops_comma_or rfl)))

end

/-! ## Functions -/

section

variable {ks ks' kp kb : List Kind} {e : Expr} {params : List Pattern} {s s' : Stream}
  {stmts body : List Stmt}

/-- The tokens are a statement, which `else` must not follow, and which starts like one. -/
structure ReadsStmt (ks : List Kind) (stmt : Stmt) : Prop where
  read : ReadsBy statement (· ≠ .ident "else") ks stmt
  balanced : Balanced ks
  opens : ∃ k rest, ks = k :: rest ∧ k ≠ .punct .rBrace ∧ k ≠ .eof ∧ k ≠ .ident "else"

theorem ReadsStmt.current {stmt} (h : ReadsStmt ks stmt) (hs : Spans s ks s') :
    s.current.kind ≠ .punct .rBrace ∧ s.current.kind ≠ .eof ∧ s.current.kind ≠ .ident "else" := by
  obtain ⟨k, rest, rfl, hk⟩ := h.opens
  rwa [hs.current]

/-- The tokens are statements one after another. -/
inductive ReadsStmts : List Kind → List Stmt → Prop
  | nil : ReadsStmts [] []
  | cons {ks ks' stmt stmts} (first : ReadsStmt ks stmt) (rest : ReadsStmts ks' stmts) :
    ReadsStmts (ks ++ ks') (stmt :: stmts)

theorem ReadsStmts.balanced (h : ReadsStmts ks stmts) : Balanced ks := by
  induction h with
  | nil => exact balanced_nil
  | cons first _ ih => exact first.balanced.append ih

theorem ReadsStmts.next (h : ReadsStmts ks stmts)
    (hs : Spans s ks s') (hstop : s'.current.kind ≠ .ident "else") :
    s.current.kind ≠ .ident "else" := by
  cases h with
  | nil =>
    obtain rfl := spans_nil_iff.mp hs
    exact hstop
  | cons first _ =>
    obtain ⟨s₁, hs₁, -⟩ := spans_append_iff.mp hs
    exact (first.current hs₁).2.2

/-- The step of `Grammar.block`: a statement, unless the block ends. -/
def statementInBlock (nested : Nested) : Parser (Option Stmt) := do
  match ← kind with
  | .punct .rBrace => return none
  | .eof => refuse (.punct .rBrace)
  | _ => return some (← nested.statement)

/-- A step that reads any one of the statements reads them one after another. -/
theorem ReadsStmts.stepsBy {step : Parser (Option Stmt)} {n}
    (hstep : ∀ {ks : List Kind} {stmt : Stmt} {s s₁ : Stream}, ReadsStmt ks stmt → ks.length < n →
      Spans s ks s₁ → s₁.current.kind ≠ .ident "else" → Succeeds step s (some stmt) s₁)
    (h : ReadsStmts ks stmts) (hlength : ks.length < n) (hs : Spans s ks s')
    (hstop : s'.current.kind ≠ .ident "else") : Steps step s stmts s' := by
  induction h generalizing s with
  | nil =>
    obtain rfl := spans_nil_iff.mp hs
    exact .done s'
  | cons first rest ih =>
    rw [length_append] at hlength
    obtain ⟨s₁, hs₁, hs'⟩ := spans_append_iff.mp hs
    refine .more (hstep first (by omega) hs₁ (rest.next hs' hstop)) ?_ (ih (by omega) hs')
    obtain ⟨k, tail, rfl, -⟩ := first.opens
    have hlong := hs₁.length
    rw [length_cons] at hlong
    show s₁.rest.length < s.rest.length
    omega

theorem ReadsStmt.inBlock {stmt depth} (h : ReadsStmt ks stmt) (hdepth : ks.length < depth)
    (hs : Spans s ks s') (hstop : s'.current.kind ≠ .ident "else") :
    Succeeds (statementInBlock (Grammar.nested depth)) s (some stmt) s' := by
  obtain ⟨hbrace, heof, -⟩ := h.current hs
  rw [statementInBlock, kind_bind_iff]
  split
  · rename_i hk
    exact absurd hk hbrace
  · rename_i hk
    exact absurd hk heof
  · rw [(h.read.nestedStatement hdepth hs hstop).bind_iff]
    simp

theorem ReadsStmts.block (h : ReadsStmts ks stmts) :
    ReadsBy block (fun _ => True) (.punct .lBrace :: (ks ++ [.punct .rBrace])) stmts := by
  have hbody : ReadsInside (fun nested => Parsing.repeated (statementInBlock nested))
      (· = .punct .rBrace) ks stmts := by
    intro depth s s' hdepth hs hk
    refine (h.stepsBy ReadsStmt.inBlock hdepth hs (by simp [hk])).repeated ?_
    rw [statementInBlock, kind_bind_iff, hk]
    simp
  exact .punct (hbody.bind rfl (.of (.punct (.of .pure))))

theorem readsBy_params (h : ReadsItems .rParen patternElement ks params) :
    ReadsBy Grammar.params (fun _ => True) (.punct .lParen :: (ks ++ [.punct .rParen])) params := by
  unfold Grammar.params
  exact .punct (.of (h.closed (by decide)))

/-- The tokens of parameters and a body in braces. -/
def functionKinds (kp kb : List Kind) : List Kind :=
  .punct .lParen :: (kp ++ .punct .rParen :: .punct .lBrace :: (kb ++ [.punct .rBrace]))

theorem balanced_functionKinds (hp : Balanced kp) (hb : Balanced kb) :
    Balanced (functionKinds kp kb) :=
  .brackets rfl rfl hp (.brackets rfl rfl hb balanced_nil)

theorem readsBy_functionRest
    (hp : ReadsItems .rParen patternElement kp params) (hb : ReadsStmts kb body)
    (name : Option String) :
    ReadsBy (fun nested => functionRest nested name) (fun _ => True) (functionKinds kp kb)
      ⟨name, params, .block body, false⟩ := by
  have hsplit : functionKinds kp kb = (.punct .lParen :: (kp ++ [.punct .rParen])) ++
      (.punct .lBrace :: (kb ++ [.punct .rBrace])) := by simp [functionKinds]
  rw [hsplit]
  exact (readsBy_params hp).bind trivial hb.block.last

theorem Reads.functionExpr {n name} (hp : ReadsItems .rParen patternElement kp params)
    (hpb : Balanced kp) (hb : ReadsStmts kb body) (hname : ∀ w ∈ name, w ∉ reservedWords) :
    Reads n (.ident "function" :: (name.toList.map Kind.ident ++ functionKinds kp kb))
      (.function ⟨name, params, .block body, false⟩) := by
  refine of_atom (fun m => opens_cons ?_) (.cons rfl (.append ?_ ?_)) (noArrow_cons (by decide)) ?_
  · simp [opensWith, openingWords, unaryOp?, updateOp?]
  · cases name with
    | none => exact balanced_nil
    | some w => exact balanced_nil.cons rfl
  · exact balanced_functionKinds hpb hb.balanced
  · unfold primary
    refine .kind (.advance ?_)
    cases name with
    | none => exact .of (.kind (readsBy_functionRest hp hb none).last)
    | some w =>
      have hw (s : Stream) (hk : s.current.kind = .ident w) :
          Succeeds (some <$> Parser.name) s (some w) s.tail := by simp [hk, hname w rfl]
      exact .of (.kind (.token hw (.of (readsBy_functionRest hp hb (some w)).last)))

/-- The tokens of the parameters of an arrow and what follows them. -/
def arrowKinds (kp kb : List Kind) : List Kind :=
  .punct .lParen :: (kp ++ .punct .rParen :: .punct .arrow :: kb)

/-- What an arrow goes on with behind `=>`: a body in braces or an expression. -/
def arrowBehind (nested : Nested) (params : List Pattern) : Parser Expr := do
  if ← atPunct .lBrace then
    return .function ⟨none, params, .block (← block nested), true⟩
  return .function ⟨none, params, .expr (← nested.assignment), true⟩

theorem arrow_iff {s₁} (hopen : s.current.kind = .punct .lParen)
    (hparams : Succeeds (Grammar.params nested) s params s₁)
    (harrow : s₁.current.kind = .punct .arrow) :
    Succeeds (arrow nested) s e s' ↔ Succeeds (arrowBehind nested params) s₁.tail e s' := by
  rw [arrow, atPunct_bind_iff, hopen]
  simp only [BEq.rfl, if_true]
  rw [hparams.bind_iff,
    (punct_iff.mpr ⟨harrow, rfl⟩ : Succeeds _ s₁ () s₁.tail).bind_iff]
  simp only [pure_bind, arrowBehind]

/-- An arrow, from what its body is read as. -/
theorem Reads.arrow_of_body {body} (hp : ReadsItems .rParen patternElement kp params)
    (hpb : Balanced kp) (hb : Balanced kb)
    (h : ReadsInside (fun nested => arrowBehind nested params) (stops 2 · = true) kb
      (.function ⟨none, params, body, true⟩)) :
    Reads 2 (arrowKinds kp kb) (.function ⟨none, params, body, true⟩) := by
  refine of_assignment (opens_cons (by decide)) (.brackets rfl rfl hpb (hb.cons rfl)) ?_
  intro depth s s' hdepth hs hstop
  have hsplit : arrowKinds kp kb = (.punct .lParen :: (kp ++ [.punct .rParen])) ++
      (.punct .arrow :: kb) := by simp [arrowKinds]
  have hhead : isArrowHead s.rest = true := by
    have hsplit : arrowKinds kp kb =
        (.punct .lParen :: (kp ++ [.punct .rParen, .punct .arrow])) ++ kb := by simp [arrowKinds]
    rw [hsplit] at hs
    obtain ⟨s₁, hs₁, -⟩ := spans_append_iff.mp hs
    exact isArrowHead_params hpb hs₁
  rw [hsplit] at hs hdepth
  simp only [length_append, length_cons, List.length_nil] at hdepth
  obtain ⟨s₁, hs₁, harrow⟩ := spans_append_iff.mp hs
  have hparams := readsBy_params hp
    (show _ ≤ depth by simp only [length_append, length_cons, List.length_nil]; omega)
    hs₁ trivial
  rw [Grammar.assignment, succeeds_get_bind_iff, hhead]
  simp only [if_true]
  rw [arrow_iff hs₁.current hparams harrow.current]
  exact h (show kb.length < depth by omega) harrow.tail hstop

theorem Reads.arrowBlock (hp : ReadsItems .rParen patternElement kp params) (hpb : Balanced kp)
    (hb : ReadsStmts kb body) :
    Reads 2 (arrowKinds kp (.punct .lBrace :: (kb ++ [.punct .rBrace])))
      (.function ⟨none, params, .block body, true⟩) := by
  refine Reads.arrow_of_body hp hpb (.brackets rfl rfl hb.balanced balanced_nil) ?_
  unfold arrowBehind
  refine .look (P := (· = .punct .lBrace)) rfl (a := true) (by simp [atPunct]) ?_
  exact .of (hb.block.mono fun _ _ => trivial).last

theorem Reads.arrowExpr (hp : ReadsItems .rParen patternElement kp params)
    (hpb : Balanced kp) (h : Reads 2 kb e) (hbrace : kb.head? ≠ some (.punct .lBrace)) :
    Reads 2 (arrowKinds kp kb) (.function ⟨none, params, .expr e, true⟩) := by
  refine Reads.arrow_of_body hp hpb h.balanced ?_
  unfold arrowBehind
  refine .look (P := (· ≠ .punct .lBrace)) ?_ (a := false) (by simp [atPunct]) h.inside.last
  obtain ⟨k, rest, rfl, -⟩ := h.opens
  exact fun hk => hbrace (congrArg some hk)

end

/-! ## `new` -/

section

variable {ks : List Kind} {first : Expr}

/-- The suffix is no call. -/
def Grammar.Suffix.isAccess : Suffix → Bool
  | .call _ => false
  | _ => true

/-- A suffix is a call exactly if it starts with a parenthesis. -/
theorem suffix?_cases {s s' suffix} (h : Succeeds (suffix? nested) s (some suffix) s') :
    (s.current.kind = .punct .lParen ∧
      ∃ args, suffix = .call args ∧ Succeeds (arguments nested) s args s') ∨
    (s.current.kind ≠ .punct .lParen ∧ suffix.isAccess = true ∧
      Succeeds (access? nested) s (some suffix) s') := by
  rw [suffix?, atPunct_bind_iff] at h
  by_cases hk : s.current.kind = .punct .lParen
  · simp only [hk, BEq.rfl, if_true, succeeds_bind_iff, succeeds_pure_iff] at h
    obtain ⟨args, s₁, hargs, ⟨⟩, rfl⟩ := h
    exact .inl ⟨hk, args, rfl, hargs⟩
  · rw [beq_eq_false_iff_ne.mpr hk] at h
    simp only [Bool.false_eq_true, if_false] at h
    refine .inr ⟨hk, ?_, h⟩
    rw [access?, kind_bind_iff] at h
    split at h <;> simp only [succeeds_bind_iff, succeeds_pure_iff] at h
    · obtain ⟨_, _, -, name, _, -, ⟨⟩, -⟩ := h
      rfl
    · obtain ⟨_, _, -, i, _, -, _, _, -, ⟨⟩, -⟩ := h
      rfl
    · exact absurd h.1 (by simp)

/-- Accesses up to the first call are what the callee of `new` is made of. -/
theorem steps_until_call {s s' accesses more}
    (haccess : ∀ suffix ∈ accesses, suffix.isAccess = true)
    (h : Steps (suffix? nested) s (accesses ++ .call args :: more) s') :
    ∃ s₁ s₂, Steps (access? nested) s accesses s₁ ∧ s₁.current.kind = .punct .lParen ∧
      Succeeds (arguments nested) s₁ args s₂ ∧
      Steps (suffix? nested) s₂ more s' := by
  induction accesses generalizing s with
  | nil =>
    cases h with
    | more first hlt rest =>
      rcases suffix?_cases first with ⟨hk, _, ⟨⟩, hargs⟩ | ⟨-, hcall, -⟩
      · exact ⟨s, _, .done s, hk, hargs, rest⟩
      · exact absurd hcall (by simp [Suffix.isAccess])
  | cons suffix accesses ih =>
    cases h with
    | more first hlt rest =>
      obtain ⟨s₁, s₂, hsteps, hk, hargs, hmore⟩ :=
        ih (fun a ha => haccess a (List.mem_cons_of_mem _ ha)) rest
      rcases suffix?_cases first with ⟨-, args, rfl, -⟩ | ⟨-, -, hfirst⟩
      · exact absurd (haccess _ List.mem_cons_self) (by simp [Suffix.isAccess])
      · exact ⟨s₁, s₂, .more hfirst hlt hsteps, hk, hargs, hmore⟩

/-- `new` takes the first call behind it for its own arguments, and the accesses before that call
for its callee. -/
theorem SpineReads.new {accesses more} (h : SpineReads ks first (accesses ++ .call args :: more))
    (haccess : ∀ suffix ∈ accesses, suffix.isAccess = true) (hnew : ks.head? ≠ some (.ident "new"))
    (hne : ks ≠ []) :
    SpineReads (.ident "new" :: ks) (.new (accesses.foldl Suffix.apply first) args) more := by
  intro depth s s' hdepth hs
  rw [length_cons] at hdepth
  obtain ⟨s₀, hatom, hsteps⟩ := h (show ks.length ≤ depth by omega) hs.tail
  obtain ⟨s₁, s₂, haccesses, hk, hargs, hmore⟩ := steps_until_call haccess hsteps
  have hprimary : Succeeds (primary (Grammar.nested depth)) s.tail first s₀ := by
    rcases hatom with ⟨hcurrent, -⟩ | ⟨-, hprimary⟩
    · rw [hs.tail.head? hne, hcurrent] at hnew
      exact absurd rfl hnew
    · exact hprimary
  have hended : Succeeds (access? (Grammar.nested depth)) s₁ none s₁ := by
    rw [access?, kind_bind_iff, hk]
    simp
  refine ⟨s₂, .inl ⟨hs.current, ?_⟩, hmore⟩
  rw [newExpr, hprimary.bind_iff,
    (haccesses.repeated hended).bind_iff, atPunct_bind_iff, hk]
  simp only [BEq.rfl, if_true]
  rw [hargs.bind_iff]
  simp

end

end IndicatorCompiler.Script
