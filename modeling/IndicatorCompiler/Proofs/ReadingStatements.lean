import IndicatorCompiler.Proofs.ReadingExpressions

/-!
# Reading statements

One lemma per form of statement, as for expressions.  The bodies of loops and branches stand in
braces, and every other statement ends with a semicolon, so that only `else` must not follow.
-/

namespace IndicatorCompiler.Script

open Grammar IndicatorCompiler.Script.Parser
open Parsing (Steps)

variable {n : Nat} {ks ks' kt kb : List Kind} {e t : Expr} {body : List Stmt} {α : Type}
  {stop : Kind → Prop} {a : α} {s s' : Stream} {kp rest ku kr : List Kind} {d : Declarator}
  {ds : List Declarator} {kss : List (List Kind)} {update : Option Expr} {right : Expr}
  {p : Pattern}

/-- Statements in braces. -/
def blockKinds (ks : List Kind) : List Kind := .punct .lBrace :: (ks ++ [.punct .rBrace])

theorem balanced_blockKinds (h : Balanced ks) : Balanced (blockKinds ks) :=
  .brackets rfl rfl h balanced_nil

/-! ## Simple statements -/

/-- A statement that starts with a token of its own. -/
theorem readsStmt_of_head {k stmt} (hplain : Balanced (k :: ks))
    (hk : k ≠ .punct .rBrace ∧ k ≠ .eof ∧ k ≠ .ident "else")
    (h : ReadsBy statement (· ≠ .ident "else") (k :: ks) stmt) :
    ReadsStmt (k :: ks) stmt where
  read := h
  balanced := hplain
  opens := ⟨k, ks, rfl, hk⟩

theorem readsStmt_empty : ReadsStmt [.punct .semicolon] .empty := by
  refine readsStmt_of_head (balanced_nil.cons rfl) (by decide) ?_
  unfold statement
  exact .kind (.advance (.of .pure))

/-- A block needs nothing of what follows it. -/
theorem readsBy_blockStmt (h : ReadsStmts ks body) :
    ReadsBy statement (fun _ => True) (blockKinds ks) (.block body) := by
  unfold statement
  exact .kind h.block.last

theorem ReadsStmts.blockStmt (h : ReadsStmts ks body) : ReadsStmt (blockKinds ks) (.block body) :=
  readsStmt_of_head (balanced_blockKinds h.balanced) (by decide)
    ((readsBy_blockStmt h).mono fun _ _ => trivial)

theorem endStatement_semicolon :
    ReadsBy (fun _ => endStatement >>= fun _ => pure a) stop [.punct .semicolon] a :=
  .token (a := ()) (by simp +contextual) (.of .pure)

theorem readsStmt_break : ReadsStmt [.ident "break", .punct .semicolon] .breakLoop := by
  refine readsStmt_of_head ((balanced_nil.cons rfl).cons rfl) (by decide) ?_
  unfold statement
  exact .kind (.advance (.of endStatement_semicolon))

theorem readsStmt_continue : ReadsStmt [.ident "continue", .punct .semicolon] .continueLoop := by
  refine readsStmt_of_head ((balanced_nil.cons rfl).cons rfl) (by decide) ?_
  unfold statement
  exact .kind (.advance (.of endStatement_semicolon))

/-- Tokens that start a statement other than an expression, or none. -/
theorem exprStmt_of_opens {nested stmt} (hopens : opensWith 0 s.current.kind = true)
    (hbrace : s.current.kind ≠ .punct .lBrace) (hfunction : s.current.kind ≠ .ident "function")
    (h : Succeeds (exprStmt nested) s stmt s') :
    Succeeds (statement nested) s stmt s' := by
  rw [statement, kind_bind_iff]
  split
  case h_2 => exact absurd ‹_› hbrace
  case h_6 => exact absurd ‹_› hfunction
  case h_13 => exact h
  all_goals
    rename_i hk
    rw [hk] at hopens
    exact absurd hopens (by decide)

theorem Opens.stmt_head (h : Opens n ks) :
    ∃ k rest, ks = k :: rest ∧ k ≠ .punct .rBrace ∧ k ≠ .eof ∧ k ≠ .ident "else" := by
  obtain ⟨k, rest, rfl, hk⟩ := h.mono (Nat.zero_le n)
  refine ⟨k, rest, rfl, ?_, ?_, ?_⟩ <;> rintro rfl <;> exact absurd hk (by decide)

/-- An expression as a statement, if it does not look like another statement. -/
theorem Reads.stmt (h : Reads n ks e) (hbrace : ks.head? ≠ some (.punct .lBrace))
    (hfunction : ks.head? ≠ some (.ident "function")) :
    ReadsStmt (ks ++ [.punct .semicolon]) (.expr e) where
  read := by
    have hread : ReadsBy exprStmt (· ≠ .ident "else") (ks ++ [.punct .semicolon]) (.expr e) :=
      h.expression.bind rfl endStatement_semicolon
    intro depth s s' hdepth hs hstop
    obtain ⟨s₁, hs₁, -⟩ := spans_append_iff.mp hs
    rw [hs₁.head? h.ne_nil] at hbrace hfunction
    exact exprStmt_of_opens ((h.opens.mono (Nat.zero_le n)).current hs₁)
      (fun hk => hbrace (congrArg some hk)) (fun hk => hfunction (congrArg some hk))
      (hread hdepth hs hstop)
  balanced := h.balanced.append (balanced_nil.cons rfl)
  opens := (h.opens.append _).stmt_head

theorem readsStmt_return : ReadsStmt [.ident "return", .punct .semicolon] (.ret none) := by
  refine readsStmt_of_head ((balanced_nil.cons rfl).cons rfl) (by decide) ?_
  have hvalue : ReadsBy returned? (· = .punct .semicolon) [] none :=
    .look (P := (· = .punct .semicolon)) (fun _ => id) (a :=
      .punct .semicolon) (by simp +contextual) .pure
  unfold statement
  exact .kind (.advance ((ReadsWith.of hvalue).bind rfl (.of endStatement_semicolon)))

theorem Reads.returnStmt (h : Reads n ks e) :
    ReadsStmt (.ident "return" :: (ks ++ [.punct .semicolon])) (.ret (some e)) := by
  refine readsStmt_of_head ((h.balanced.append (balanced_nil.cons rfl)).cons rfl) (by decide) ?_
  have hvalue : ReadsBy returned? (stops 0 · = true) ks (some e) := by
    intro depth s s' hdepth hs hstop
    have hopens := (h.opens.mono (Nat.zero_le n)).current hs
    rw [returned?, kind_bind_iff]
    split
    case h_4 =>
      rw [(h.expression hdepth hs hstop).bind_iff]
      simp
    all_goals
      rename_i hcurrent
      rw [hcurrent] at hopens
      exact absurd hopens (by decide)
  unfold statement
  exact .kind (.advance ((ReadsWith.of hvalue).bind rfl (.of endStatement_semicolon)))

theorem readsStmt_function {name params} (hname : name ∉ reservedWords)
    (hp : ReadsItems .rParen patternElement kp params) (hpb : Balanced kp)
    (hb : ReadsStmts kb body) :
    ReadsStmt (.ident "function" :: .ident name :: functionKinds kp kb)
      (.function ⟨some name, params, .block body, false⟩) := by
  refine readsStmt_of_head (((balanced_functionKinds hpb hb.balanced).cons rfl).cons rfl)
    (by decide) ?_
  have hrest : ReadsBy (fun nested => functionRest nested (some name)) (· ≠ .ident "else")
      (functionKinds kp kb) ⟨some name, params, .block body, false⟩ :=
    (readsBy_functionRest hp hb (some name)).mono fun _ _ => trivial
  unfold statement
  exact .kind (.advance (.of (.token (by simp [hname]) (.of hrest.last))))

/-! ## Declarations -/

/-- The tokens are one binding of a declaration. -/
inductive ReadsDeclarator : List Kind → Declarator → Prop
  | plain {ks : List Kind} {p} (target : ReadsTarget ks p) : ReadsDeclarator ks ⟨p, none⟩
  | init {ks ks' : List Kind} {p e} (target : ReadsTarget ks p) (value : Reads 2 ks' e) :
    ReadsDeclarator (ks ++ .punct .eq :: ks') ⟨p, some e⟩

/-- What follows a declaration: a semicolon. -/
theorem ReadsDeclarator.read (h : ReadsDeclarator ks d) :
    ReadsBy declarator (fun k => k = .punct .comma ∨ k = .punct .semicolon) ks d := by
  unfold declarator
  cases h with
  | plain target =>
    refine target.read.then (fun _ _ => trivial) (.eat_absent ?_ .pure)
    rintro k (rfl | rfl) <;> decide
  | init target value =>
    refine target.read.bind trivial (.eat (.of ?_))
    refine ((value.assignment (Nat.le_refl 2)).mono ?_).last
    rintro k (rfl | rfl) <;> rfl

theorem ReadsDeclarator.balanced (h : ReadsDeclarator ks d) : Balanced ks := by
  cases h with
  | plain target => exact target.balanced
  | init target value => exact target.balanced.append (value.balanced.cons rfl)

/-- The target of a binding is read alone; a sign of what follows it is left. -/
theorem ReadsDeclarator.target (h : ReadsDeclarator ks d) {depth : Nat}
    (hdepth : ks.length ≤ depth) (hs : Spans s ks s')
    (hk : ∃ p, s'.current.kind = .punct p) :
    ∃ target s₁, Succeeds (bindingTarget (Grammar.nested depth)) s target s₁ ∧
      ∃ p, s₁.current.kind = .punct p := by
  cases h with
  | @plain _ p target => exact ⟨p, s', target.read hdepth hs trivial, hk⟩
  | @init ks ks' p e target value =>
    rw [List.length_append] at hdepth
    obtain ⟨s₁, hs₁, heq⟩ := spans_append_iff.mp hs
    exact ⟨p, s₁, target.read (show ks.length ≤ depth by omega) hs₁ trivial, _, heq.current⟩

theorem readsBy_declarators (h : List.Forall₂ ReadsDeclarator (ks :: kss) (d :: ds)) :
    ReadsBy declarators (· = .punct .semicolon) (commaKinds (ks :: kss)) (d :: ds) :=
  (readsBy_itemsOne (· = .punct .semicolon) (h.imp fun _ _ => ReadsDeclarator.read)).mono
    fun k hk => ⟨hk, by rw [hk]; decide⟩

@[simp] theorem varKind?_text (kind : VarKind) : varKind? (.ident kind.text) = some kind := by
  cases kind <;> rfl

theorem varKind_of_current {kind} (h : s.current.kind = .ident kind.text) :
    Succeeds varKind s kind s.tail := by
  rw [varKind, kind_bind_iff, h, varKind?_text]
  simp

theorem readsStmt_var (kind : VarKind) (h : List.Forall₂ ReadsDeclarator (ks :: kss) (d :: ds)) :
    ReadsStmt (.ident kind.text :: (commaKinds (ks :: kss) ++ [.punct .semicolon]))
      (.var kind (d :: ds)) := by
  have hbalanced := balanced_of_forall₂ h ReadsDeclarator.balanced
  refine readsStmt_of_head ((hbalanced.append (balanced_nil.cons rfl)).cons rfl)
    (by cases kind <;> decide) ?_
  have hstmt : ReadsBy varStmt (· ≠ .ident "else")
      (.ident kind.text :: (commaKinds (ks :: kss) ++ [.punct .semicolon])) (.var kind (d :: ds)) :=
    .token (fun _ => varKind_of_current)
      (.of ((readsBy_declarators h).bind rfl endStatement_semicolon))
  unfold statement
  cases kind <;> exact .kind hstmt

/-! ## Branches and loops -/

/-- A test in parentheses. -/
def testKinds (kt rest : List Kind) : List Kind := .punct .lParen :: (kt ++ .punct .rParen :: rest)

theorem balanced_testKinds (ht : Balanced kt) (h : Balanced rest) : Balanced (testKinds kt rest) :=
  .brackets rfl rfl ht h

theorem Reads.test {f : Nested → Expr → Parser α} (h : Reads n kt t)
    (hf : ReadsInside (f · t) stop rest a) :
    ReadsBy (fun nested => Grammar.test nested >>= f nested) stop (testKinds kt rest) a := by
  simp only [Grammar.test, bind_assoc, pure_bind]
  exact .punct (h.expression.nestedExpression.bind rfl (.of (.punct hf)))

theorem ReadsStmts.nestedBlock (h : ReadsStmts kb body) :
    ReadsInside (·.statement) (fun _ => True) (blockKinds kb) (.block body) :=
  (readsBy_blockStmt h).nestedStatement

theorem readsStmt_if (ht : Reads n kt t) (hb : ReadsStmts kb body) :
    ReadsStmt (.ident "if" :: testKinds kt (blockKinds kb)) (.ifElse t (.block body) none) := by
  refine readsStmt_of_head
    ((balanced_testKinds ht.balanced (balanced_blockKinds hb.balanced)).cons rfl) (by decide) ?_
  suffices hif : ReadsBy ifStmt _ _ _ by
    unfold statement
    exact .kind hif
  refine .word (.of (ht.test (hb.nestedBlock.then (fun _ _ => trivial) ?_)))
  exact .eat_absent (fun _ => id) (.of .pure)

theorem readsStmt_ifElse {ka alternate} (ht : Reads n kt t) (hb : ReadsStmts kb body)
    (ha : ReadsStmt ka alternate) :
    ReadsStmt (.ident "if" :: testKinds kt (blockKinds kb ++ .ident "else" :: ka))
      (.ifElse t (.block body) (some alternate)) := by
  refine readsStmt_of_head ((balanced_testKinds ht.balanced
    ((balanced_blockKinds hb.balanced).append (ha.balanced.cons rfl))).cons rfl) (by decide) ?_
  suffices hif : ReadsBy ifStmt _ _ _ by
    unfold statement
    exact .kind hif
  refine .word (.of (ht.test (hb.nestedBlock.bind trivial (.of (.eat ?_)))))
  simp only [if_true, map_eq_pure_bind, bind_assoc, pure_bind]
  exact ha.read.nestedStatement.last

theorem readsStmt_while (ht : Reads n kt t) (hb : ReadsStmts kb body) :
    ReadsStmt (.ident "while" :: testKinds kt (blockKinds kb)) (.whileLoop t (.block body)) := by
  refine readsStmt_of_head
    ((balanced_testKinds ht.balanced (balanced_blockKinds hb.balanced)).cons rfl) (by decide) ?_
  unfold statement
  refine .kind (.advance (.of (ht.test ?_)))
  exact (hb.nestedBlock.mono fun _ _ => trivial).last

/-! ### Loops with a head -/

/-- The tokens of a loop: its head in parentheses and its body. -/
def forKinds (head kb : List Kind) : List Kind := .ident "for" :: testKinds head (blockKinds kb)

/-- A loop starts with `for (`, and the rest is told by what follows. -/
theorem readsStmt_for {head stmt} (hhead : Balanced head) (hb : ReadsStmts kb body)
    (h : ReadsInside (fun nested => do
        if (varKind? (← Parser.kind)).isSome then forDeclared nested
        else if ← atPunct .semicolon then forRest nested none
        else forAssigned nested)
      (fun _ => True) (head ++ .punct .rParen :: blockKinds kb) stmt) :
    ReadsStmt (forKinds head kb) stmt := by
  refine readsStmt_of_head
    ((balanced_testKinds hhead (balanced_blockKinds hb.balanced)).cons rfl) (by decide) ?_
  unfold statement
  exact .kind (.word (.of (.punct (h.mono fun _ _ => trivial))))

/-- The tokens are an expression that may be missing. -/
inductive ReadsOptional : List Kind → Option Expr → Prop
  | none : ReadsOptional [] none
  | some {n : Nat} {ks e} (h : Reads n ks e) : ReadsOptional ks (some e)

theorem ReadsOptional.balanced {e : Option Expr} (h : ReadsOptional ks e) : Balanced ks := by
  cases h with
  | none => exact balanced_nil
  | some h => exact h.balanced

theorem ReadsOptional.before {f : Nested → Option Expr → Parser α} {e : Option Expr}
    (h : ReadsOptional ks e) {close} (hstops : stops 0 (.punct close) = true)
    (hopens : opensWith 0 (.punct close) = false) (hf : ReadsInside (f · e) stop rest a) :
    ReadsBy (fun nested => expressionBefore nested close >>= f nested) stop
      (ks ++ .punct close :: rest) a := by
  simp only [expressionBefore, bind_assoc, pure_bind]
  cases h with
  | none =>
    refine .look (P := (· = .punct close)) rfl (a := true) (by simp [atPunct]) ?_
    simp only [if_true, bind_assoc, pure_bind]
    exact .punct hf
  | @some n _ e h =>
    refine .look (P := (· ≠ .punct close)) (a := false) ?_ (by simp [atPunct]) ?_
    · refine .append fun _ => (h.opens.mono (Nat.zero_le n)).leading ?_
      rintro k hk rfl
      simp [hopens] at hk
    · simp only [Bool.false_eq_true, if_false, map_eq_pure_bind, bind_assoc, pure_bind]
      exact h.expression.bind hstops (.punct hf)

/-- The tokens of a counting loop's head behind its start. -/
def countingKinds (kt ku : List Kind) : List Kind :=
  .punct .semicolon :: (kt ++ .punct .semicolon :: ku)

theorem forRest_reads {init : Option ForInit} {test} (ht : ReadsOptional kt test)
    (hu : ReadsOptional ku update) (hb : ReadsStmts kb body) :
    ReadsBy (fun nested => forRest nested init) (fun _ => True)
      (countingKinds kt ku ++ .punct .rParen :: blockKinds kb)
      (.forLoop init test update (.block body)) := by
  have hsplit : countingKinds kt ku ++ .punct .rParen :: blockKinds kb = .punct .semicolon ::
      (kt ++ .punct .semicolon :: (ku ++ .punct .rParen :: blockKinds kb)) := by
      simp [countingKinds]
  rw [hsplit]
  exact .punct (.of (ht.before rfl rfl (.of (hu.before rfl rfl hb.nestedBlock.last))))

theorem balanced_countingKinds (ht : Balanced kt) (hu : Balanced ku) :
    Balanced (countingKinds kt ku) :=
  (ht.append (hu.cons rfl)).cons rfl

theorem readsStmt_forNothing {test : Option Expr}
    (ht : ReadsOptional kt test) (hu : ReadsOptional ku update) (hb : ReadsStmts kb body) :
    ReadsStmt (forKinds (countingKinds kt ku) kb) (.forLoop none test update (.block body)) := by
  refine readsStmt_for (balanced_countingKinds ht.balanced hu.balanced) hb (.of (.kind ?_))
  refine .look (P := (· = .punct .semicolon)) rfl (a := true) (by simp [atPunct]) ?_
  exact forRest_reads ht hu hb

/-- What opens an expression is neither a word of a declaration nor a semicolon. -/
theorem forAssigned_of_opens {stmt} (hopens : Leading (opensWith 0 · = true) ks stop)
    (h : ReadsInside forAssigned stop ks stmt) :
    ReadsInside (fun nested => do
      if (varKind? (← Parser.kind)).isSome then forDeclared nested
      else if ← atPunct .semicolon then forRest nested none
      else forAssigned nested) stop ks stmt := by
  intro depth s s' hdepth hs hstop
  have hopens := hopens.current hs hstop
  have hkind : varKind? s.current.kind = none := by
    unfold varKind?
    split
    case h_4 => rfl
    all_goals
      rename_i hk
      rw [hk] at hopens
      exact absurd hopens (by decide)
  have hsemicolon : s.current.kind ≠ .punct .semicolon := by
    intro hk
    rw [hk] at hopens
    exact absurd hopens (by decide)
  simp only [kind_bind_iff, hkind, Option.isSome_none, Bool.false_eq_true, if_false,
    atPunct_bind_iff, beq_eq_false_iff_ne.mpr hsemicolon]
  exact h hdepth hs hstop

theorem forEachKind?_none (hof : s.current.kind ≠ .ident "of")
    (hin : s.current.kind ≠ .ident "in") : Succeeds forEachKind? s none s := by
  rw [forEachKind?, eatWord, (eat_of_ne hof).bind_iff]
  simp only [Bool.false_eq_true, if_false]
  rw [eatWord, (eat_of_ne hin).bind_iff]
  simp

theorem forEachKind?_some {each} (h : s.current.kind = .ident each.text) :
    Succeeds forEachKind? s (some each) s.tail := by
  cases each with
  | elements =>
    have h : s.current.kind = .ident "of" := h
    rw [forEachKind?, eatWord, (eat_of_eq h).bind_iff]
    simp
  | keys =>
    have h : s.current.kind = .ident "in" := h
    have hof : s.current.kind ≠ .ident "of" := by
      rw [h]
      decide
    rw [forEachKind?, eatWord, (eat_of_ne hof).bind_iff]
    simp only [Bool.false_eq_true, if_false]
    rw [eatWord, (eat_of_eq h).bind_iff]
    simp

theorem readsStmt_forExpr {ki : List Kind} {test} (hi : Reads n ki e) (ht : ReadsOptional kt test)
    (hu : ReadsOptional ku update) (hb : ReadsStmts kb body) :
    ReadsStmt (forKinds (ki ++ countingKinds kt ku) kb)
      (.forLoop (some (.expr e)) test update (.block body)) := by
  refine readsStmt_for (hi.balanced.append (balanced_countingKinds ht.balanced hu.balanced)) hb ?_
  have hread : ReadsBy forAssigned (fun _ => True)
      (ki ++ (countingKinds kt ku ++ .punct .rParen :: blockKinds kb))
      (.forLoop (some (.expr e)) test update (.block body)) := by
    refine hi.expression.bind rfl (.look (P := (· = .punct .semicolon)) rfl (a := none) ?_ ?_)
    · exact fun s hk => forEachKind?_none (by simp [hk]) (by simp [hk])
    · exact forRest_reads ht hu hb
  rw [List.append_assoc]
  exact forAssigned_of_opens (.append fun _ => (hi.opens.mono (Nat.zero_le n)).leading fun _ => id)
    (.of hread)

/-- The declaration of a loop is read twice: its first binding alone, to see whether `of` or `in`
follows, and then all of it. -/
theorem readsStmt_forDeclare (kind : VarKind) {test : Option Expr}
    (hd : List.Forall₂ ReadsDeclarator (ks :: kss) (d :: ds))
    (ht : ReadsOptional kt test) (hu : ReadsOptional ku update) (hb : ReadsStmts kb body) :
    ReadsStmt (forKinds (.ident kind.text :: (commaKinds (ks :: kss) ++ countingKinds kt ku)) kb)
      (.forLoop (some (.declare kind (d :: ds))) test update (.block body)) := by
  refine readsStmt_for (((balanced_of_forall₂ hd ReadsDeclarator.balanced).append
    (balanced_countingKinds ht.balanced hu.balanced)).cons rfl) hb ?_
  intro depth s s' hdepth hs _
  rw [List.cons_append, List.append_assoc] at hs hdepth
  rw [List.length_cons, List.length_append] at hdepth
  obtain ⟨s₁, hs₁, hrest⟩ := spans_append_iff.mp hs.tail
  have hk : s₁.current.kind = .punct .semicolon :=
    (show Spans s₁ (.punct .semicolon :: _) s' from hrest).current
  obtain ⟨target, s₂, hfirst, p, hp⟩ : ∃ target s₂,
      Succeeds (bindingTarget (Grammar.nested depth)) s.tail target s₂ ∧
        ∃ p, s₂.current.kind = .punct p := by
    cases hd with
    | cons first rest =>
      simp only [commaKinds, List.length_append] at hdepth
      obtain ⟨s₃, hs₃, hmore⟩ := spans_append_iff.mp hs₁
      refine first.target (show ks.length ≤ depth by omega) hs₃ ?_
      cases rest with
      | nil =>
        obtain rfl := spans_nil_iff.mp hmore
        exact ⟨_, hk⟩
      | cons => exact ⟨_, (show Spans s₃ (.punct .comma :: _) s₁ from hmore).current⟩
  rw [kind_bind_iff, hs.current, varKind?_text]
  simp only [Option.isSome_some, if_true]
  rw [forDeclared, (varKind_of_current hs.current).bind_iff,
    succeeds_get_bind_iff, hfirst.bind_iff,
    (forEachKind?_none (by simp [hp]) (by simp [hp])).bind_iff]
  simp only
  rw [succeeds_set_bind_iff, (readsBy_declarators hd (show _ ≤ depth by omega) hs₁ hk).bind_iff]
  exact forRest_reads ht hu hb (by omega) hrest trivial

/-- The tokens of the head of a loop over a collection, from `of` or `in` on. -/
theorem forEachRest_reads {each kind} (hr : Reads 2 kr right) (hb : ReadsStmts kb body) :
    ReadsBy (fun nested => forEachRest nested each kind p) (fun _ => True)
      (kr ++ .punct .rParen :: blockKinds kb) (.forEach each kind p right (.block body)) :=
  (hr.assignment (Nat.le_refl 2)).bind rfl (.punct hb.nestedBlock.last)

theorem readsStmt_forEachDeclared (each : ForEachKind) (kind : VarKind)
    (hp : ReadsTarget kp p) (hr : Reads 2 kr right)
    (hb : ReadsStmts kb body) :
    ReadsStmt (forKinds (.ident kind.text :: (kp ++ .ident each.text :: kr)) kb)
      (.forEach each (some kind) p right (.block body)) := by
  refine readsStmt_for ((hp.balanced.append (hr.balanced.cons rfl)).cons rfl) hb ?_
  intro depth s s' hdepth hs _
  rw [List.cons_append, List.append_assoc] at hs hdepth
  rw [List.length_cons, List.length_append] at hdepth
  obtain ⟨s₁, hs₁, heach⟩ := spans_append_iff.mp hs.tail
  rw [kind_bind_iff, hs.current, varKind?_text]
  simp only [Option.isSome_some, if_true]
  rw [forDeclared, (varKind_of_current hs.current).bind_iff, succeeds_get_bind_iff,
    (hp.read (show kp.length ≤ depth by omega) hs₁ trivial).bind_iff,
    (forEachKind?_some heach.current).bind_iff]
  rw [List.cons_append, List.length_cons] at hdepth
  exact forEachRest_reads hr hb (by omega) heach.tail trivial

theorem readsStmt_forEachAssigned (each : ForEachKind) {x} (hx : Reads n kp x)
    (hp : x.toPattern? = some p) (hr : Reads 2 kr right) (hb : ReadsStmts kb body) :
    ReadsStmt (forKinds (kp ++ .ident each.text :: kr) kb)
    (.forEach each none p right (.block body)) := by
  refine readsStmt_for (hx.balanced.append (hr.balanced.cons rfl)) hb ?_
  have hread : ReadsBy forAssigned (fun _ => True)
      (kp ++ .ident each.text :: (kr ++ .punct .rParen :: blockKinds kb))
      (.forEach each none p right (.block body)) := by
    refine hx.expression.bind (by cases each <;> rfl) (.token (fun _ => forEachKind?_some) ?_)
    simp only [hp]
    exact .of (forEachRest_reads hr hb)
  rw [List.append_assoc]
  exact forAssigned_of_opens (.append fun _ => (hx.opens.mono (Nat.zero_le n)).leading fun _ => id)
    (.of hread)

/-! ## Scripts -/

/-- The step of `Grammar.program`: a statement, unless the input ends. -/
def statementInProgram (inside : Nested) : Parser (Option Stmt) := do
  if ← at? .eof then return none
  return some (← statement inside)

theorem ReadsStmt.inProgram {stmt depth} (h : ReadsStmt ks stmt) (hdepth : ks.length < depth + 1)
    (hs : Spans s ks s') (hstop : s'.current.kind ≠ .ident "else") :
    Succeeds (statementInProgram (Grammar.nested depth)) s (some stmt) s' := by
  obtain ⟨-, heof, -⟩ := h.current hs
  have hat : Succeeds (at? .eof) s false s := by simp [heof]
  rw [statementInProgram, hat.bind_iff]
  simp only [Bool.false_eq_true, if_false]
  rw [(h.read (Nat.le_of_lt_succ hdepth) hs hstop).bind_iff]
  simp

/-- Tokens of statements and the token that ends the input are a script. -/
theorem ReadsStmts.ofTokens {stmts} (h : ReadsStmts ks stmts) {toks}
    (htoks : toks.map (·.kind) = ks) {last} (hlast : last.kind = .eof) :
    Program.ofTokens (toks ++ [last]) = .ok ⟨stmts⟩ := by
  have hs : Spans (.ofTokens (toks ++ [last])) ks ⟨[last], last⟩ :=
    ⟨toks, rfl, htoks, by simp [Stream.ofTokens]⟩
  have hdepth : ks.length ≤ (toks ++ [last]).length := by simp [← htoks]
  have hended : Succeeds (statementInProgram (Grammar.nested (toks ++ [last]).length))
      ⟨[last], last⟩ none ⟨[last], last⟩ := by
    have hat : Succeeds (at? .eof) ⟨[last], last⟩ true ⟨[last], last⟩ := by
      simp [Stream.current, hlast]
    rw [statementInProgram, hat.bind_iff]
    simp
  have hread : Succeeds (program (Grammar.nested (toks ++ [last]).length))
      (.ofTokens (toks ++ [last])) stmts ⟨[last], last⟩ :=
    (h.stepsBy ReadsStmt.inProgram (Nat.lt_succ_of_le hdepth) hs
      (by simp [Stream.current, hlast])).repeated hended
  rw [Program.ofTokens, StateT.run, hread]
  rfl

end IndicatorCompiler.Script
