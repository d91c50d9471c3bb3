import IndicatorCompiler.Proofs.Reading
import IndicatorCompiler.Script.Print

/-!
# Reading by strength

Tokens read as an expression of some strength: `Reads n ks e` says that `ks` can stand wherever the
grammar asks for an expression that binds at least as strongly as `n`, and that it is read there as
`e`.  What follows must not be able to go on with the expression, which `stops n` says of a token.

A weaker place accepts every stronger phrase, so each constructor of `Reads` is given the parser of
its own strength only, and the parsers of all weaker strengths follow.
-/

namespace IndicatorCompiler.Script

open List (map_eq_cons_iff cons_append append_assoc map_eq_append_iff)
open Bool (and_eq_true)

variable {t : Token} {k : Kind} {ks ks' : List Kind} {s s' : Stream} {m n : Nat} {nested : Nested}
    {e : Expr}

open Grammar IndicatorCompiler.Script.Parser
open Parsing (Steps)

/-! ## Brackets -/

/-- The token opens no bracket and closes none. -/
def Kind.isPlain : Kind → Bool
  | .punct .lParen | .punct .lBracket | .punct .lBrace
  | .punct .rParen | .punct .rBracket | .punct .rBrace | .eof => false
  | _ => true

/-- Brackets that open. -/
def Punct.opensBracket : Punct → Bool
  | .lParen | .lBracket | .lBrace => true
  | _ => false

/-- Brackets that close. -/
def Punct.closesBracket : Punct → Bool
  | .rParen | .rBracket | .rBrace => true
  | _ => false

/-- Every bracket that is opened is closed: inside of brackets, the search for their end passes over
the tokens. -/
def Balanced (ks : List Kind) : Prop :=
  ∀ toks : List Token, toks.map (·.kind) = ks → ∀ (depth : Nat) (rest : List Token),
    closesBeforeArrow (depth + 1) (toks ++ rest) = closesBeforeArrow (depth + 1) rest

theorem balanced_nil : Balanced [] := by
  intro toks htoks depth rest
  obtain rfl : toks = [] := by simpa using htoks
  rfl

theorem closesBeforeArrow_plain (ht : t.kind.isPlain = true) (depth : Nat) (rest : List Token) :
    closesBeforeArrow depth (t :: rest) = closesBeforeArrow depth rest := by
  rw [closesBeforeArrow]
  unfold Kind.isPlain at ht
  split at ht <;> simp_all

theorem Balanced.cons (hk : k.isPlain = true) (h : Balanced ks) : Balanced (k :: ks) := by
  intro toks htoks depth rest
  obtain ⟨t, toks, rfl, rfl, hrest⟩ := map_eq_cons_iff.mp htoks
  rw [cons_append, closesBeforeArrow_plain hk, h toks hrest]

theorem Balanced.append (h : Balanced ks) (h' : Balanced ks') : Balanced (ks ++ ks') := by
  intro toks htoks depth rest
  obtain ⟨toks₁, toks₂, rfl, h₁, h₂⟩ := map_eq_append_iff.mp htoks
  rw [append_assoc, h toks₁ h₁, h' toks₂ h₂]

theorem balanced_commaKinds {kss} (h : ∀ ks ∈ kss, Balanced ks) : Balanced (commaKinds kss) := by
  cases kss with
  | nil => exact balanced_nil
  | cons ks kss =>
    refine (h ks List.mem_cons_self).append ?_
    induction kss with
    | nil => exact balanced_nil
    | cons ks' kss ih =>
      refine ((h ks' (by simp)).cons rfl).append (ih fun ks'' hks => h ks'' ?_)
      simp only [List.mem_cons] at hks ⊢
      tauto

theorem balanced_of_forall₂ {α : Type} {R : List Kind → α → Prop} {kss as}
    (h : List.Forall₂ R kss as) (hR : ∀ {ks a}, R ks a → Balanced ks) :
    Balanced (commaKinds kss) := by
  refine balanced_commaKinds ?_
  induction h with
  | nil => simp
  | cons first _ ih => simpa using ⟨hR first, ih⟩

theorem closesBeforeArrow_open {p} (ht : t.kind = .punct p) (hp : p.opensBracket = true)
    (depth : Nat) (rest : List Token) :
    closesBeforeArrow depth (t :: rest) = closesBeforeArrow (depth + 1) rest := by
  rw [closesBeforeArrow, ht]
  cases p <;> first | rfl | exact absurd hp (by decide)

theorem closesBeforeArrow_close {p} (ht : t.kind = .punct p) (hp : p.closesBracket = true)
    (depth : Nat) (rest : List Token) :
    closesBeforeArrow depth (t :: rest) =
      if depth ≤ 1 then rest.head?.any (·.kind == .punct .arrow)
      else closesBeforeArrow (depth - 1) rest := by
  rw [closesBeforeArrow, ht]
  cases p <;> first | rfl | exact absurd hp (by decide)

theorem Balanced.brackets {o c} (ho : o.opensBracket = true) (hc : c.closesBracket = true)
    (h : Balanced ks) (h' : Balanced ks') : Balanced (.punct o :: (ks ++ .punct c :: ks')) := by
  intro toks htoks depth rest
  obtain ⟨t, toks, rfl, ht, hrest⟩ := map_eq_cons_iff.mp htoks
  obtain ⟨inner, behind, rfl, hinner, hbehind⟩ := map_eq_append_iff.mp hrest
  obtain ⟨t', toks', rfl, ht', htoks'⟩ := map_eq_cons_iff.mp hbehind
  rw [cons_append, closesBeforeArrow_open ht ho, append_assoc, h inner hinner,
    cons_append, closesBeforeArrow_close ht' hc, if_neg (by omega)]
  exact h' toks' htoks' depth rest

/-! ## Arrows -/

/-- No arrow function starts here, unless an arrow follows. -/
def NoArrow (ks : List Kind) : Prop :=
  ∀ toks : List Token, toks.map (·.kind) = ks → ∀ rest : List Token,
    rest.head?.any (·.kind == .punct .arrow) = false → isArrowHead (toks ++ rest) = false

/-- Tokens with which no arrow function starts. -/
def Kind.opensNoArrow : Kind → Bool
  | .ident name => decide (name ∈ reservedWords)
  | .punct .lParen => false
  | _ => true

theorem noArrow_cons (hk : k.opensNoArrow = true) : NoArrow (k :: ks) := by
  intro toks htoks rest _
  obtain ⟨t, toks, rfl, rfl, -⟩ := map_eq_cons_iff.mp htoks
  rw [cons_append, isArrowHead]
  unfold Kind.opensNoArrow at hk
  split at hk <;> simp_all

theorem noArrow_ident (name : String) : NoArrow [.ident name] := by
  intro toks htoks rest hrest
  obtain ⟨t, toks, rfl, ht, hnil⟩ := map_eq_cons_iff.mp htoks
  obtain rfl : toks = [] := by simpa using hnil
  rw [List.singleton_append, isArrowHead, ht]
  simp only [hrest, Bool.and_false]

theorem noArrow_parens (h : Balanced ks) :
    NoArrow (.punct .lParen :: (ks ++ [.punct .rParen])) := by
  intro toks htoks rest hrest
  obtain ⟨t, toks, rfl, ht, hbehind⟩ := map_eq_cons_iff.mp htoks
  obtain ⟨inner, toks, rfl, hinner, hclose⟩ := map_eq_append_iff.mp hbehind
  obtain ⟨t', toks, rfl, ht', hnil⟩ := map_eq_cons_iff.mp hclose
  obtain rfl : toks = [] := by simpa using hnil
  rw [cons_append, isArrowHead, ht]
  simp only
  rw [closesBeforeArrow_open ht rfl, append_assoc, h inner hinner, List.singleton_append,
    closesBeforeArrow_close ht' rfl, if_pos (Nat.le_refl 1)]
  exact hrest

theorem NoArrow.append (h : NoArrow ks) (h' : ks'.head? ≠ some (.punct .arrow)) :
    NoArrow (ks ++ ks') := by
  intro toks htoks rest hrest
  obtain ⟨toks₁, toks₂, rfl, h₁, rfl⟩ := map_eq_append_iff.mp htoks
  rw [append_assoc]
  refine h toks₁ h₁ _ ?_
  cases toks₂ with
  | nil => exact hrest
  | cons t toks₂ => simpa using h'

/-- An arrow function starts at its parameters in parentheses. -/
theorem isArrowHead_params (h : Balanced ks)
    (hs : Spans s (.punct .lParen :: (ks ++ [.punct .rParen, .punct .arrow])) s') :
    isArrowHead s.rest = true := by
  obtain ⟨toks, hrest, htoks, -⟩ := hs
  obtain ⟨t, toks, rfl, ht, hbehind⟩ := map_eq_cons_iff.mp htoks
  obtain ⟨inner, toks, rfl, hinner, hclose⟩ := map_eq_append_iff.mp hbehind
  obtain ⟨t', toks, rfl, ht', harrow⟩ := map_eq_cons_iff.mp hclose
  obtain ⟨a, toks, rfl, ha, -⟩ := map_eq_cons_iff.mp harrow
  rw [hrest, cons_append, isArrowHead, ht]
  simp only
  rw [closesBeforeArrow_open ht rfl, append_assoc, h inner hinner, cons_append,
    closesBeforeArrow_close ht' rfl, if_pos (Nat.le_refl 1)]
  simp [ha]

/-- What follows the tokens decides nothing more than whether an arrow follows. -/
theorem NoArrow.isArrowHead (h : NoArrow ks) (hs : Spans s ks s')
    (hstop : s'.current.kind ≠ .punct .arrow) : isArrowHead s.rest = false := by
  obtain ⟨toks, hrest, htoks, -⟩ := hs
  rw [hrest]
  refine h toks htoks _ ?_
  cases hs' : s'.rest with
  | nil => rfl
  | cons t rest =>
    rw [Stream.current, hs'] at hstop
    simpa using hstop

/-! ## What stops an expression, and what starts one -/

/-- The token begins a member access or a call. -/
def Kind.startsSuffix : Kind → Bool
  | .punct .lParen | .punct .dot | .punct .lBracket => true
  | _ => false

/-- An expression of strength `n` cannot go on with the token. -/
def stops (n : Nat) (k : Kind) : Bool :=
  (decide (18 < n) || !k.startsSuffix) &&
  (decide (16 < n) || (updateOp? k).isNone) &&
  (binaryOp? k).all (fun op => decide (op.precedence < n)) &&
  (decide (3 < n) || k != .punct .question) &&
  (decide (2 < n) || (assignOp? k).isNone && k != .punct .arrow) &&
  (decide (1 < n) || k != .punct .comma)

/-- What stops an expression stops a stronger one. -/
theorem stops_mono (hmn : m ≤ n) (h : stops m k = true) : stops n k = true := by
  simp only [stops, and_eq_true, Bool.or_eq_true, decide_eq_true_eq, Option.all_eq_true] at h ⊢
  obtain ⟨⟨⟨⟨⟨hsuffix, hupdate⟩, hbinary⟩, hquestion⟩, hassign⟩, hcomma⟩ := h
  refine ⟨⟨⟨⟨⟨?_, ?_⟩, ?_⟩, ?_⟩, ?_⟩, ?_⟩
  · exact hsuffix.imp_left (by omega)
  · exact hupdate.imp_left (by omega)
  · exact fun op hop => by have := hbinary op hop; omega
  · exact hquestion.imp_left (by omega)
  · exact hassign.imp_left (by omega)
  · exact hcomma.imp_left (by omega)

theorem startsSuffix_of_stops (hn : n ≤ 18) (h : stops n k = true) : k.startsSuffix = false := by
  have := stops_mono hn h
  simp only [stops, and_eq_true] at this
  simpa using this.1.1.1.1.1

theorem updateOp?_of_stops (hn : n ≤ 16) (h : stops n k = true) : updateOp? k = none := by
  have := stops_mono hn h
  simp only [stops, and_eq_true] at this
  simpa using this.1.1.1.1.2

theorem precedence_of_stops (h : stops n k = true) {op} (hop : binaryOp? k = some op) :
    op.precedence < n := by
  simp only [stops, and_eq_true, Option.all_eq_true] at h
  simpa using h.1.1.1.2 op hop

theorem ne_question_of_stops (hn : n ≤ 3) (h : stops n k = true) : k ≠ .punct .question := by
  have := stops_mono hn h
  simp only [stops, and_eq_true] at this
  simpa using this.1.1.2

theorem assignOp?_of_stops (hn : n ≤ 2) (h : stops n k = true) :
    assignOp? k = none ∧ k ≠ .punct .arrow := by
  have := stops_mono hn h
  simp only [stops, and_eq_true] at this
  simpa using this.1.2

theorem ne_comma_of_stops (hn : n ≤ 1) (h : stops n k = true) : k ≠ .punct .comma := by
  have := stops_mono hn h
  simp only [stops, and_eq_true] at this
  simpa using this.2

/-- Words with which an expression starts although they are reserved. -/
def openingWords : List String :=
  ["true", "false", "null", "function", "new", "typeof", "void", "delete"]

/-- An expression of strength `n` can start with the token. -/
def opensWith (n : Nat) (k : Kind) : Bool :=
  (match k with
    | .num _ | .str _ => true
    | .ident name => decide (name ∉ reservedWords) || decide (name ∈ openingWords)
    | .punct p => decide (p ∈ [.lParen, .lBracket, .lBrace, .bang, .minus, .plus, .plusPlus,
        .minusMinus])
    | .eof => false) &&
  (decide (n < 16) || (unaryOp? k).isNone && (updateOp? k).isNone) &&
  (decide (n < 19) || k != .ident "new")

theorem opensWith_mono (hmn : m ≤ n) (h : opensWith n k = true) : opensWith m k = true := by
  simp only [opensWith, and_eq_true, Bool.or_eq_true, decide_eq_true_eq] at h ⊢
  exact ⟨⟨h.1.1, h.1.2.imp_left (by omega)⟩, h.2.imp_left (by omega)⟩

/-- The tokens start like an expression of strength `n`. -/
def Opens (n : Nat) (ks : List Kind) : Prop := ∃ k rest, ks = k :: rest ∧ opensWith n k = true

theorem opens_cons (h : opensWith n k = true) : Opens n (k :: ks) := ⟨k, ks, rfl, h⟩

theorem Opens.mono (h : Opens n ks) (hmn : m ≤ n) : Opens m ks := by
  obtain ⟨k, rest, rfl, hk⟩ := h
  exact opens_cons (opensWith_mono hmn hk)

theorem Opens.append (h : Opens n ks) (ks' : List Kind) : Opens n (ks ++ ks') := by
  obtain ⟨k, rest, rfl, hk⟩ := h
  exact opens_cons hk

theorem Opens.ne_nil (h : Opens n ks) : ks ≠ [] := by
  obtain ⟨k, rest, rfl, -⟩ := h
  exact List.cons_ne_nil k rest

theorem Opens.current (h : Opens n ks) (hs : Spans s ks s') :
    opensWith n s.current.kind = true := by
  obtain ⟨k, rest, rfl, hk⟩ := h
  rwa [hs.current]

theorem Opens.leading (h : Opens n ks) {P stop : Kind → Prop}
    (hP : ∀ k, opensWith n k = true → P k) : Leading P ks stop := by
  obtain ⟨k, rest, rfl, hk⟩ := h
  exact hP k hk

theorem operators_of_opens (hn : 16 ≤ n) (h : opensWith n k = true) :
    unaryOp? k = none ∧ updateOp? k = none := by
  have := opensWith_mono hn h
  simp only [opensWith, and_eq_true] at this
  simpa using this.1.2

theorem ne_new_of_opens (hn : 19 ≤ n) (h : opensWith n k = true) : k ≠ .ident "new" := by
  have := opensWith_mono hn h
  simp only [opensWith, and_eq_true] at this
  simpa using this.2

/-! ## Atoms and what follows them -/

/-- An atom is read: `new` with its callee and arguments, or a primary expression. -/
def ReadsAtom (depth : Nat) (s : Stream) (e : Expr) (s' : Stream) : Prop :=
  (s.current.kind = .ident "new" ∧ Succeeds (newExpr (Grammar.nested depth)) s.tail e s') ∨
  (s.current.kind ≠ .ident "new" ∧ Succeeds (primary (Grammar.nested depth)) s e s')

/-- The tokens are read as an atom and these accesses and calls, also if more of them follow. -/
def SpineReads (ks : List Kind) (first : Expr) (more : List Suffix) : Prop :=
  ∀ ⦃depth : Nat⦄ ⦃s s' : Stream⦄, ks.length ≤ depth → Spans s ks s' →
    ∃ s₁, ReadsAtom depth s first s₁ ∧ Steps (suffix? (Grammar.nested depth)) s₁ more s'

/-- The tokens are read as an atom with accesses and calls that make up `e`. -/
def Spine (ks : List Kind) (e : Expr) : Prop :=
  ∃ (first : Expr) (more : List Suffix), more.foldl Suffix.apply first = e ∧
  SpineReads ks first more

theorem suffix?_none (h : s.current.kind.startsSuffix = false) :
    Succeeds (suffix? nested) s none s := by
  have hparen : (s.current.kind == .punct .lParen) = false := by
    rw [beq_eq_false_iff_ne]
    intro hk
    rw [hk] at h
    exact absurd h (by decide)
  rw [suffix?, atPunct_bind_iff, hparen]
  simp only [Bool.false_eq_true, if_false]
  rw [access?, kind_bind_iff]
  split
  · rename_i hk
    rw [hk] at h
    exact absurd h (by decide)
  · rename_i hk
    rw [hk] at h
    exact absurd h (by decide)
  · simp

theorem Spine.suffixed (h : Spine ks e) : ReadsBy suffixed (stops 18 · = true) ks e := by
  intro depth s s' hdepth hs hstop
  obtain ⟨first, more, rfl, hreads⟩ := h
  obtain ⟨s₁, hatom, hmore⟩ := hreads hdepth hs
  have hended : Succeeds (suffix? (Grammar.nested depth)) s' none s' :=
    suffix?_none (startsSuffix_of_stops (Nat.le_refl 18) hstop)
  have hmore := hmore.repeated hended
  rw [suffixed, eatWord]
  rcases hatom with ⟨hnew, hatom⟩ | ⟨hnew, hatom⟩
  · rw [(eat_of_eq hnew).bind_iff]
    simp only [if_true]
    rw [hatom.bind_iff, hmore.bind_iff]
    simp
  · rw [(eat_of_ne hnew).bind_iff]
    simp only [Bool.false_eq_true, if_false]
    rw [hatom.bind_iff, hmore.bind_iff]
    simp

theorem SpineReads.snoc {first more last} (h : SpineReads ks first more)
    (hlast : ReadsBy suffix? (fun _ => True) ks' (some last)) (hne : ks' ≠ []) :
    SpineReads (ks ++ ks') first (more ++ [last]) := by
  intro depth s s' hdepth hs
  rw [List.length_append] at hdepth
  obtain ⟨s₁, hs₁, hs'⟩ := spans_append_iff.mp hs
  obtain ⟨s₂, hatom, hmore⟩ := h (show ks.length ≤ depth by omega) hs₁
  refine ⟨s₂, hatom, hmore.snoc (hlast (show ks'.length ≤ depth by omega) hs' trivial) ?_⟩
  have hlong := hs'.length
  have hpos := List.length_pos_iff.mpr hne
  show s'.rest.length < s₁.rest.length
  omega

theorem Spine.snoc {last} (h : Spine ks e)
    (hlast : ReadsBy suffix? (fun _ => True) ks' (some last)) (hne : ks' ≠ []) :
    Spine (ks ++ ks') (last.apply e) := by
  obtain ⟨first, more, rfl, hreads⟩ := h
  exact ⟨first, more ++ [last], by simp, hreads.snoc hlast hne⟩

theorem spineReads_atom (h : ReadsBy primary (fun _ => True) ks e) (hopens : Opens 19 ks) :
    SpineReads ks e [] := by
  intro depth s s' hdepth hs
  exact ⟨s', .inr ⟨ne_new_of_opens (Nat.le_refl 19) (hopens.current hs), h hdepth hs trivial⟩,
    .done s'⟩

/-! ## Operators between operands -/

/-- A chain of operations, from the left. -/
def chained (first : Expr) (more : List (BinaryOp × Expr)) : Expr :=
  more.foldl (fun left (op, right) => .binary op left right) first

/-- The tokens are read as a chain of operations of precedence `n` or more that make up `e`, also
if operators of precedence `n` follow. -/
def Chain (n : Nat) (ks : List Kind) (e : Expr) : Prop :=
  ∃ (first : Expr) (more : List (BinaryOp × Expr)), chained first more = e ∧
    ∀ ⦃depth : Nat⦄ ⦃s s' : Stream⦄, ks.length ≤ depth → Spans s ks s' →
      stops (n + 1) s'.current.kind = true →
        ∃ s₁, Succeeds (Grammar.unary (Grammar.nested depth)) s first s₁ ∧
          Steps (operation? (Grammar.nested depth) n) s₁ more s'

theorem operation?_mono (hmn : m ≤ n) {operation}
    (h : Succeeds (operation? nested n) s (some operation) s') :
    Succeeds (operation? nested m) s (some operation) s' := by
  rw [operation?, kind_bind_iff] at h ⊢
  split at h
  · simp at h
  · rename_i op hop
    split at h
    · simp at h
    · rename_i hn
      rw [if_neg (by omega)]
      exact h

theorem Chain.mono (hmn : m ≤ n) (h : Chain n ks e) : Chain m ks e := by
  obtain ⟨first, more, rfl, hreads⟩ := h
  refine ⟨first, more, rfl, fun depth s s' hdepth hs hstop => ?_⟩
  obtain ⟨s₁, hfirst, hmore⟩ := hreads hdepth hs (stops_mono (by omega) hstop)
  exact ⟨s₁, hfirst, hmore.mono (operation?_mono hmn)⟩

theorem operation?_none
    (h : stops n s.current.kind = true) : Succeeds (operation? nested n) s none s := by
  rw [operation?, kind_bind_iff]
  split
  · simp
  · rename_i op hop
    rw [if_pos (precedence_of_stops h hop)]
    simp

theorem Chain.binary (h : Chain n ks e) :
    ReadsBy (fun nested => Grammar.binary nested n) (stops n · = true) ks e := by
  intro depth s s' hdepth hs hstop
  obtain ⟨first, more, rfl, hreads⟩ := h
  obtain ⟨s₁, hfirst, hmore⟩ := hreads hdepth hs (stops_mono (Nat.le_succ n) hstop)
  show Succeeds (Grammar.binary (Grammar.nested depth) n) s _ s'
  rw [Grammar.binary, hfirst.bind_iff, (hmore.repeated (operation?_none hstop)).bind_iff]
  simp [chained]

theorem chain_of_unary (hn : n ≤ 14) (h : ReadsBy Grammar.unary (stops 15 · = true) ks e) :
    Chain n ks e :=
  ⟨e, [], rfl, fun _ _ s' hdepth hs hstop => ⟨s', h hdepth hs (stops_mono (by omega) hstop),
    .done s'⟩⟩

/-- No operator is weaker than `4`, where the chain of a condition starts. -/
theorem operation?_zero (nested : Nested) : operation? nested 0 = operation? nested 4 := by
  have hprecedence (op : BinaryOp) : ¬ op.precedence < 4 := by cases op <;> decide
  simp only [operation?, hprecedence, Nat.not_lt_zero]

theorem binary_zero (nested : Nested) : Grammar.binary nested 0 = Grammar.binary nested 4 := by
  rw [Grammar.binary, Grammar.binary, operation?_zero]

/-- A chain alone is a choice without a question; an assignment may follow it. -/
theorem Chain.conditional (h : Chain 4 ks e) :
    ReadsBy Grammar.conditional (stops 3 · = true) ks e := by
  intro depth s s' hdepth hs hstop
  rw [Grammar.conditional, binary_zero,
    (h.binary hdepth hs (stops_mono (by omega) hstop)).bind_iff, eatPunct,
    (eat_of_ne (ne_question_of_stops (Nat.le_refl 3) hstop)).bind_iff]
  simp

/-! ## Strengths -/

/-- The tokens are read as `e` wherever an expression of strength `n` or less is asked for. -/
structure Reads (n : Nat) (ks : List Kind) (e : Expr) : Prop where
  opens : Opens n ks
  balanced : Balanced ks
  noArrow : 3 ≤ n → NoArrow ks := by omega
  atom : 19 ≤ n → ReadsBy primary (fun _ => True) ks e := by omega
  spine : 17 ≤ n → Spine ks e := by omega
  updated : 16 ≤ n → ReadsBy Grammar.updated (stops 16 · = true) ks e := by omega
  unary : 15 ≤ n → ReadsBy Grammar.unary (stops 15 · = true) ks e := by omega
  chain : ∀ ⦃m : Nat⦄, m ≤ 14 → 4 ≤ m → m ≤ n → Chain m ks e := by omega
  conditional : 3 ≤ n → ReadsBy Grammar.conditional (stops 2 · = true) ks e := by omega
  assignment : 2 ≤ n → ReadsBy Grammar.assignment (stops 2 · = true) ks e := by omega
  expression : ReadsBy Grammar.expression (stops 0 · = true) ks e

namespace Reads

variable {n : Nat} {ks : List Kind} {e : Expr}

theorem mono {m} (h : Reads n ks e) (hmn : m ≤ n) : Reads m ks e where
  opens := h.opens.mono hmn
  balanced := h.balanced
  noArrow hm := h.noArrow (Nat.le_trans hm hmn)
  atom hm := h.atom (Nat.le_trans hm hmn)
  spine hm := h.spine (Nat.le_trans hm hmn)
  updated hm := h.updated (Nat.le_trans hm hmn)
  unary hm := h.unary (Nat.le_trans hm hmn)
  chain _ h14 h4 hm := h.chain h14 h4 (Nat.le_trans hm hmn)
  conditional hm := h.conditional (Nat.le_trans hm hmn)
  assignment hm := h.assignment (Nat.le_trans hm hmn)
  expression := h.expression

theorem ne_nil (h : Reads n ks e) : ks ≠ [] := h.opens.ne_nil

theorem inside (h : Reads 2 ks e) : ReadsInside (·.assignment) (stops 2 · = true) ks e :=
  (h.assignment (Nat.le_refl 2)).nestedAssignment

theorem of_expression (hopens : Opens 1 ks) (hbalanced : Balanced ks)
    (h : ReadsBy Grammar.expression (stops 0 · = true) ks e) : Reads 1 ks e where
  opens := hopens
  balanced := hbalanced
  expression := h

theorem of_assignment (hopens : Opens 2 ks) (hbalanced : Balanced ks)
    (h : ReadsBy Grammar.assignment (stops 2 · = true) ks e) : Reads 2 ks e where
  opens := hopens
  balanced := hbalanced
  assignment _ := h
  expression := by
    intro depth s s' hdepth hs hstop
    have hfirst := h hdepth hs (stops_mono (by omega) hstop)
    have hitems := Parsing.itemsOne_of_steps hfirst (Steps.done s')
      (eat_of_ne (k := .punct .comma) (ne_comma_of_stops (by omega) hstop))
    rw [Grammar.expression, eatPunct, hitems.bind_iff]
    simp

theorem of_conditional (hopens : Opens 3 ks) (hbalanced : Balanced ks) (hnoArrow : NoArrow ks)
    (h : ReadsBy Grammar.conditional (stops 2 · = true) ks e) : Reads 3 ks e := by
  have hassignment : ReadsBy Grammar.assignment (stops 2 · = true) ks e := by
    intro depth s s' hdepth hs hstop
    obtain ⟨hop, harrow⟩ := assignOp?_of_stops (Nat.le_refl 2) hstop
    rw [Grammar.assignment, succeeds_get_bind_iff, hnoArrow.isArrowHead hs harrow]
    simp only [Bool.false_eq_true, if_false]
    rw [(h hdepth hs hstop).bind_iff, kind_bind_iff, hop]
    simp
  have hweak := of_assignment (hopens.mono (by omega)) hbalanced hassignment
  exact { opens := hopens, balanced := hbalanced, noArrow := fun _ => hnoArrow,
          conditional := fun _ => h, assignment := fun _ => hassignment,
          expression := hweak.expression }

theorem of_chain {p} (hp : 4 ≤ p) (hp' : p ≤ 14) (hopens : Opens p ks) (hbalanced : Balanced ks)
    (hnoArrow : NoArrow ks) (h : Chain p ks e) : Reads p ks e := by
  have hconditional : ReadsBy Grammar.conditional (stops 2 · = true) ks e :=
    (h.mono hp).conditional.mono fun _ => stops_mono (by omega)
  have hweak := of_conditional (hopens.mono (by omega)) hbalanced hnoArrow hconditional
  exact { opens := hopens, balanced := hbalanced, noArrow := fun _ => hnoArrow,
          chain := fun _ _ _ hn => h.mono hn, conditional := fun _ => hconditional,
          assignment := fun _ => hweak.assignment (by omega), expression := hweak.expression }

theorem of_unary (hopens : Opens 15 ks) (hbalanced : Balanced ks) (hnoArrow : NoArrow ks)
    (h : ReadsBy Grammar.unary (stops 15 · = true) ks e) : Reads 15 ks e := by
  have hweak := of_chain (by omega) (Nat.le_refl 14) (hopens.mono (by omega)) hbalanced hnoArrow
    (chain_of_unary (Nat.le_refl 14) h)
  exact { opens := hopens, balanced := hbalanced, noArrow := fun _ => hnoArrow, unary := fun _ => h,
          chain := fun _ hm _ _ => chain_of_unary hm h,
          conditional := fun _ => hweak.conditional (by omega),
          assignment := fun _ => hweak.assignment (by omega), expression := hweak.expression }

/-- What an operand of operators is besides. -/
theorem raise {m} (h : Reads m ks e) (hm : 15 ≤ m) (hopens : Opens n ks)
    (hatom : 19 ≤ n → ReadsBy primary (fun _ => True) ks e) (hspine : 17 ≤ n → Spine ks e)
    (hupdated : ReadsBy Grammar.updated (stops 16 · = true) ks e) : Reads n ks e where
  opens := hopens
  balanced := h.balanced
  noArrow := fun _ => h.noArrow (by omega)
  atom := hatom
  spine := hspine
  updated := fun _ => hupdated
  unary := fun _ => h.unary hm
  chain := fun _ hp h4 _ => h.chain hp h4 (by omega)
  conditional := fun _ => h.conditional (by omega)
  assignment := fun _ => h.assignment (by omega)
  expression := h.expression

theorem of_updated (hopens : Opens 16 ks) (hbalanced : Balanced ks) (hnoArrow : NoArrow ks)
    (h : ReadsBy Grammar.updated (stops 16 · = true) ks e) : Reads 16 ks e := by
  have hunary : ReadsBy Grammar.unary (stops 15 · = true) ks e := by
    intro depth s s' hdepth hs hstop
    obtain ⟨hop, hupdate⟩ := operators_of_opens (Nat.le_refl 16) (hopens.current hs)
    rw [Grammar.unary, kind_bind_iff, hop]
    simp only
    rw [kind_bind_iff, hupdate]
    exact h hdepth hs (stops_mono (by omega) hstop)
  exact (of_unary (hopens.mono (by omega)) hbalanced hnoArrow hunary).raise (Nat.le_refl 15) hopens
    (fun hn => by omega) (fun hn => by omega) h

theorem of_spine (hopens : Opens 18 ks) (hbalanced : Balanced ks) (hnoArrow : NoArrow ks)
    (h : Spine ks e) : Reads 18 ks e := by
  have hupdated : ReadsBy Grammar.updated (stops 16 · = true) ks e := by
    intro depth s s' hdepth hs hstop
    rw [Grammar.updated, (h.suffixed hdepth hs (stops_mono (by omega) hstop)).bind_iff,
      kind_bind_iff, updateOp?_of_stops (Nat.le_refl 16) hstop]
    simp
  exact (of_updated (hopens.mono (by omega)) hbalanced hnoArrow hupdated).raise (by omega) hopens
    (fun hn => by omega) (fun _ => h) hupdated

theorem of_atom (hopens : ∀ m, Opens m ks) (hbalanced : Balanced ks) (hnoArrow : NoArrow ks)
    (h : ReadsBy primary (fun _ => True) ks e) : Reads n ks e := by
  have hspine : Spine ks e := ⟨e, [], rfl, spineReads_atom h (hopens 19)⟩
  have hweak := of_spine (hopens 18) hbalanced hnoArrow hspine
  exact hweak.raise (by omega) (hopens n) (fun _ => h) (fun _ => hspine) (hweak.updated (by omega))

end Reads

end IndicatorCompiler.Script
