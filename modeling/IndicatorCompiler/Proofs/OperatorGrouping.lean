import IndicatorCompiler.Pine.Program
import IndicatorCompiler.Proofs.Agreement
import IndicatorCompiler.Proofs.Reading

/-!
# Grouping of operators

Operands with operators between them are read as a tree that groups them by strength, and from the
left where they are equally strong.  There is one loop for each strength.  A loop stops at an
operator that is weaker than its own, so what it has read is grouped already when a weaker loop goes
on.  Behind every operand a list of type arguments is tried if `<` follows; without a parenthesis
behind it nothing is read.
-/

namespace IndicatorCompiler.Pine

/-! ## Operators and operands -/

/-- How tightly the operator binds. -/
def BinaryOp.strength : BinaryOp → Nat
  | or => 1
  | and => 2
  | eq | notEq => 3
  | lt | ltEq | gt | gtEq => 4
  | add | sub => 5
  | mul | div | mod => 6

/-- The token that spells the operator. -/
def BinaryOp.kind : BinaryOp → Kind
  | or => .keyword .or
  | and => .keyword .and
  | eq => .symbol .eqEq
  | notEq => .symbol .notEq
  | lt => .symbol .lt
  | ltEq => .symbol .ltEq
  | gt => .symbol .gt
  | gtEq => .symbol .gtEq
  | add => .symbol .plus
  | sub => .symbol .minus
  | mul => .symbol .star
  | div => .symbol .slash
  | mod => .symbol .percent

/-- The expression that a name or a literal is. -/
def Kind.operand? : Kind → Option Expr
  | .ident name => some (if name == "na" then .na else .ident name)
  | .int value => some (.int value)
  | .float value => some (.float value)
  | .str value => some (.str value)
  | .color text => some (.color text)
  | .keyword .trueWord => some (.bool true)
  | .keyword .falseWord => some (.bool false)
  | _ => none

/-- A token that is an operand. -/
structure Operand where
  token : Token
  value : Expr
  reads : token.kind.operand? = some value

/-- An operator and the operand behind it. -/
structure Link where
  operator : Token
  op : BinaryOp
  spells : operator.kind = op.kind
  operand : Operand

/-- The tokens of operators and the operands behind them. -/
def links (more : List Link) : List Token :=
  more.flatMap fun link => [link.operator, link.operand.token]

/-- The expression is what tokens of these kinds read as from left to right, and no operator at its
top is weaker than `k`.  To the left of an operator none is weaker, and to its right all bind more
tightly. -/
inductive Groups : Nat → List Kind → Expr → Prop
  | operand {k} (a : Operand) : Groups k [a.token.kind] a.value
  | binary {k op ks ks' left right} (hop : k ≤ op.strength) (hleft : Groups op.strength ks left)
      (hright : Groups (op.strength + 1) ks' right) :
      Groups k (ks ++ op.kind :: ks') (.binary op left right)

theorem Groups.weaken {k ks e} (h : Groups (k + 1) ks e) : Groups k ks e := by
  cases h with
  | operand a => exact .operand a
  | binary hop hleft hright => exact .binary (Nat.le_of_succ_le hop) hleft hright

/-- The logical line, or the text, ends here. -/
def LineStops (tokens : List Token) : Prop :=
  ∃ stop rest, tokens = stop :: rest ∧ (stop.kind = .newline ∨ stop.kind = .eof)

/-- Before the line ends no parenthesis opens. -/
inductive Uncalled : List Token → Prop
  | stop {t rest} (h : t.kind = .newline ∨ t.kind = .eof) : Uncalled (t :: rest)
  | more {t rest} (h : t.kind ≠ .symbol .lParen) (hrest : Uncalled rest) : Uncalled (t :: rest)

variable {s s' : Stream} {t : Token} {more : List Link} {rest behind : List Token} {depth : Nat}

theorem uncalled_links (hbehind : LineStops behind) : Uncalled (links more ++ behind) := by
  induction more with
  | nil =>
    obtain ⟨stop, rest, rfl, hstop⟩ := hbehind
    exact .stop hstop
  | cons link more ih =>
    refine .more ?_ (.more (fun hkind => ?_) ih)
    · rw [link.spells]
      cases link.op <;> simp [BinaryOp.kind]
    · have hreads := link.operand.reads
      simp [hkind, Kind.operand?] at hreads

theorem Stream.current_eq (h : s.rest = t :: rest) : s.current = t := by simp [Stream.current, h]

theorem Stream.rest_tail (h : s.rest = t :: rest) : s.tail.rest = rest := by simp [Stream.tail, h]

/-- The kind ends a line. -/
def Kind.endsLine : Kind → Bool
  | .newline | .eof => true
  | _ => false

namespace Uncalled

theorem current_ne (h : Uncalled s.rest) : s.current.kind ≠ .symbol .lParen := by
  generalize hs : s.rest = tokens at h
  cases h with
  | stop h => rcases h with h | h <;> simp [Stream.current_eq hs, h]
  | more h => rwa [Stream.current_eq hs]

theorem tail (h : Uncalled s.rest) (hk : s.current.kind.endsLine = false) :
    Uncalled s.tail.rest := by
  generalize hs : s.rest = tokens at h
  cases h with
  | stop h => rcases h with h | h <;> simp [Stream.current_eq hs, h, Kind.endsLine] at hk
  | more _ hrest => rwa [Stream.rest_tail hs]

theorem tail_tail (h : Uncalled s.rest) (hk : s.current.kind.endsLine = false)
    (hnext : (s.peek 1).endsLine = false) : Uncalled s.tail.tail.rest := by
  refine (h.tail hk).tail ?_
  obtain ⟨rest, last, ending⟩ := s
  match rest with
  | [] | [_] => cases hnext
  | _ :: _ :: _ => exact hnext

end Uncalled

/-! ## Types -/

namespace Grammar

open IndicatorCompiler.Pine.Parser

variable {α β : Type} {b : β}

@[simp high] theorem kind_bind_iff {f : Kind → Parser β} :
    Succeeds (kind >>= f) s b s' ↔ Succeeds (f s.current.kind) s b s' := .rfl

@[simp high] theorem following_bind_iff {f : Kind → Parser β} :
    Succeeds (following >>= f) s b s' ↔ Succeeds (f (s.peek 1)) s b s' := .rfl

@[simp high] theorem advance_bind_iff {f : Unit → Parser β} :
    Succeeds (advance >>= f) s b s' ↔ Succeeds (f ()) s.tail b s' := .rfl

@[simp high] theorem at?_bind_iff {k} {f : Bool → Parser β} :
    Succeeds (at? k >>= f) s b s' ↔ Succeeds (f (s.current.kind == k)) s b s' := .rfl

/-- One stream, in which no call follows. -/
abbrev Alike (s t : Stream) : Prop := s = t ∧ Uncalled s.rest

/-- The parser does not read the end of a line. -/
abbrev Shut (x : Parser α) : Prop :=
  Agrees Alike (fun _ => Alike) (fun _ _ => True) x x fun _ => True

theorem shut_of {x : Parser α}
    (h : ∀ {s a s'}, Uncalled s.rest → Succeeds x s a s' → Uncalled s'.rest) : Shut x := by
  rintro s _ ⟨rfl, hs⟩
  cases hx : x s with
  | ok p => exact .ok trivial ⟨rfl, h hs hx⟩
  | error e => exact .error trivial

theorem shut_eat {k} (hk : k.endsLine = false) : Shut (eat k) := by
  refine shut_of fun {s a s'} hs h => ?_
  rw [eat, at?_bind_iff] at h
  split at h
  · rename_i hfound
    cases h
    exact hs.tail (eq_of_beq hfound ▸ hk)
  · cases h
    exact hs

theorem shut_need {k expected} (hk : k.endsLine = false) : Shut (need k expected) := by
  refine (shut_eat hk).bind fun found _ => ?_
  cases found with
  | true => exact agrees_pure trivial
  | false => exact agrees_get_bind fun _ _ _ => agrees_throw trivial

theorem shut_identifier : Shut identifier := by
  refine shut_of fun {s a s'} hs h => ?_
  rw [identifier, kind_bind_iff] at h
  split at h
  · rename_i hk
    cases h
    exact hs.tail (hk ▸ rfl)
  · cases h

theorem shut_dottedStep : Shut dottedStep := by
  refine shut_of fun {s a s'} hs h => ?_
  rw [dottedStep, kind_bind_iff, following_bind_iff] at h
  split at h
  · rename_i hk hnext
    cases h
    exact hs.tail_tail (hk ▸ rfl) (hnext ▸ rfl)
  · cases h
    exact hs

theorem shut_arrayMark : Shut arrayMark := by
  refine shut_of fun {s a s'} hs h => ?_
  rw [arrayMark, kind_bind_iff, following_bind_iff] at h
  split at h
  · rename_i hk hnext
    cases h
    exact hs.tail_tail (hk ▸ rfl) (hnext ▸ rfl)
  · cases h
    exact hs

theorem shut_repeatWithin {step : Parser (Option α)} (h : Shut step) (fuel : Nat) :
    Shut (Parsing.repeatWithin step fuel) := by
  induction fuel with
  | zero => exact agrees_pure trivial
  | succ fuel ih =>
    refine h.bind fun a _ => ?_
    cases a with
    | none => exact agrees_pure trivial
    | some a => exact ih.bind fun _ _ => agrees_pure trivial

theorem shut_repeated {step : Parser (Option α)} (h : Shut step) :
    Shut (Parsing.repeated step) := by
  refine h.bind fun a _ => ?_
  cases a with
  | none => exact agrees_pure trivial
  | some a =>
    rintro s _ ⟨rfl, hs⟩
    exact (shut_repeatWithin h _).bind (fun _ _ => agrees_pure trivial) ⟨rfl, hs⟩

theorem shut_itemsOne {item : Parser α} {k} (hk : k.endsLine = false) (h : Shut item) :
    Shut (Parsing.itemsOne (eat k) item) := by
  refine h.bind fun _ _ => (shut_repeated ((shut_eat hk).bind fun found _ => ?_)).bind
    fun _ _ => agrees_pure trivial
  cases found with
  | true => exact h.bind fun _ _ => agrees_pure trivial
  | false => exact agrees_pure trivial

theorem shut_typeArgs {inside} (h : Shut inside.type) : Shut (typeArgs inside) := by
  refine (shut_need rfl).then ?_
  refine (shut_itemsOne rfl h).bind fun _ _ => ?_
  exact (shut_need rfl).then (agrees_pure trivial)

theorem shut_nested (depth : Nat) : Shut (nested depth).type := by
  induction depth with
  | zero => exact agrees_get_bind fun _ _ _ => agrees_throw trivial
  | succ depth ih =>
    refine shut_identifier.bind fun _ _ => (shut_repeated shut_dottedStep).bind fun _ _ => ?_
    refine (shut_of fun hs h => ?_ : Shut (at? (.symbol .lt))).bind fun found _ => ?_
    · cases h
      exact hs
    · cases found with
      | true =>
        exact (shut_typeArgs ih).bind fun _ _ => shut_arrayMark.bind fun _ _ => agrees_pure trivial
      | false => exact shut_arrayMark.bind fun _ _ => agrees_pure trivial

/-! ## Operands -/

/-- What gives nothing reads nothing. -/
theorem attempt_none {x : Parser (Option α)} {S E}
    (h : Agrees S (fun _ => S) E x x fun a => a = none) (hs : S s s) :
    Succeeds (Parsing.attempt x) s none s := by
  show Parsing.attempt x s = _
  rw [Parsing.attempt_apply]
  rcases h.outcomes hs with ⟨_, s', -, hrun, -, rfl⟩ | ⟨e, -, hrun, -⟩ <;> rw [hrun]

/-- No parenthesis stands behind type arguments, so nothing is read. -/
theorem callTypeArgs?_none (hs : Uncalled s.rest) :
    Succeeds (callTypeArgs? (nested depth)) s none s := by
  have hat : Agrees Alike (fun _ => Alike) (fun _ _ => True)
      (at? (.symbol .lParen)) (at? (.symbol .lParen)) fun found => found = false := by
    rintro s _ ⟨rfl, hs⟩
    exact Agreed.ok (P := fun found => found = false) (beq_eq_false_iff_ne.mpr hs.current_ne)
      ⟨rfl, hs⟩
  refine attempt_none ((shut_typeArgs (shut_nested depth)).bind fun args _ => hat.bind ?_) ⟨rfl, hs⟩
  rintro _ rfl
  exact agrees_pure rfl

/-- Nothing follows an operand but operators. -/
theorem suffix?_none (hbehind : LineStops behind) (hs : s.rest = links more ++ behind) :
    Succeeds (suffix? (nested depth)) s none s := by
  rw [suffix?, kind_bind_iff]
  cases more with
  | nil =>
    obtain ⟨stop, rest, rfl, hstop⟩ := hbehind
    rcases hstop with hstop | hstop <;> simp [Stream.current_eq hs, hstop]
  | cons link more =>
    rw [Stream.current_eq hs, link.spells]
    cases link.op with
    | lt =>
      simp only [BinaryOp.kind]
      rw [(callTypeArgs?_none (hs ▸ uncalled_links hbehind)).bind_iff]
      simp
    | _ => simp [BinaryOp.kind]

theorem atom_operand {inside value} (hreads : s.current.kind.operand? = some value)
    (hnext : s.tail.current.kind ≠ .symbol .lParen) : Succeeds (atom inside) s value s.tail := by
  have hfalse : (s.tail.current.kind == .symbol .lParen) = false := by simpa using hnext
  rw [atom, kind_bind_iff]
  generalize s.current.kind = k at hreads ⊢
  unfold Kind.operand? at hreads
  split at hreads
  · cases hreads
    simp only [advance_bind_iff, at?_bind_iff, hfalse, Bool.not_false, Bool.and_true]
    split <;> rfl
  all_goals cases hreads
  all_goals rfl

theorem unary_operand {first : Operand} (hbehind : LineStops behind)
    (hs : s.rest = first.token :: (links more ++ behind)) :
    Succeeds (unary (nested depth)) s first.value s.tail := by
  have hcurrent := Stream.current_eq hs
  have hrest := Stream.rest_tail hs
  have hatom : Succeeds (atom (nested depth)) s first.value s.tail :=
    atom_operand (hcurrent ▸ first.reads)
    (hrest ▸ uncalled_links hbehind : Uncalled s.tail.rest).current_ne
  have hsuffixes : Succeeds (Parsing.repeated (suffix? (nested depth))) s.tail [] s.tail :=
    (Parsing.Steps.done s.tail).repeated (suffix?_none hbehind hrest)
  have hsuffixed : Succeeds (suffixed (nested depth)) s first.value s.tail := by
    rw [suffixed, hatom.bind_iff, hsuffixes.bind_iff]
    rfl
  have hreads := first.reads
  rw [unary, kind_bind_iff, hcurrent]
  generalize first.token.kind = k at hreads ⊢
  split <;> first | exact hsuffixed | simp [Kind.operand?] at hreads

/-! ## Loops -/

/-- From an operand on, the parser reads as far as the operators are at least as strong as `k`. -/
def Takes (k : Nat) (operand : Parser Expr) : Prop :=
  ∀ ⦃s⦄ ⦃first : Operand⦄ ⦃more behind⦄, LineStops behind →
  s.rest = first.token :: (links more ++ behind) →
    ∃ taken left e s', more = taken ++ left ∧ (∀ link ∈ left.head?, link.op.strength < k) ∧
      Succeeds operand s e s' ∧ s'.rest = links left ++ behind ∧
      Groups k (first.token.kind :: (links taken).map (·.kind)) e

theorem takes_unary : Takes 7 (unary (nested depth)) := fun s first more _ hbehind hs =>
  ⟨[], more, first.value, s.tail, rfl, fun link _ => by cases link.op <;> decide,
    unary_operand hbehind hs, Stream.rest_tail hs, .operand first⟩

/-- One operator of a loop and the operand behind it. -/
def groupStep (operator? : Kind → Option BinaryOp) (operand : Parser Expr) :
    Parser (Option (BinaryOp × Expr)) := do
  match operator? (← kind) with
  | none => return none
  | some op =>
    advance
    return some (op, ← operand)

/-- The loop of the operators of strength `k`. -/
structure Loops (operator? : Kind → Option BinaryOp) (k : Nat) : Prop where
  operator : ∀ op : BinaryOp, operator? op.kind = if op.strength = k then some op else none
  newline : operator? .newline = none
  eof : operator? .eof = none

variable {operator? : Kind → Option BinaryOp} {operand : Parser Expr} {k : Nat}

/-- The loop goes on over the operators of its strength and what is tighter, and stops in front of a
weaker operator. -/
theorem steps_loop (hloop : Loops operator? k) (hoperand : Takes (k + 1) operand)
    (hbehind : LineStops behind) (hs : s.rest = links more ++ behind)
    (hmore : ∀ link ∈ more.head?, link.op.strength < k + 1) :
    ∃ groups taken left s', Parsing.Steps (groupStep operator? operand) s groups s' ∧
      Succeeds (groupStep operator? operand) s' none s' ∧ more = taken ++ left ∧
      (∀ link ∈ left.head?, link.op.strength < k) ∧ s'.rest = links left ++ behind ∧
      ∀ ks e, Groups k ks e → Groups k (ks ++ (links taken).map (·.kind))
        (groups.foldl (fun left (op, right) => .binary op left right) e) := by
  have hnone {s} (h : operator? s.current.kind = none) : Succeeds
    (groupStep operator? operand) s none s := by
    simp [groupStep, h]
  induction hlength : more.length using Nat.strongRecOn generalizing more s with
  | ind n ih =>
    cases more with
    | nil =>
      obtain ⟨stop, rest, rfl, hstop⟩ := hbehind
      refine ⟨[], [], [], s, .done s, hnone ?_, rfl, by simp, hs,
        fun ks e he => by simpa [links] using he⟩
      rw [Stream.current_eq hs]
      rcases hstop with hstop | hstop <;> simp [hstop, hloop.newline, hloop.eof]
    | cons link more =>
      have hcurrent : operator? s.current.kind =
          if link.op.strength = k then some link.op else none := by
        rw [Stream.current_eq hs, link.spells, hloop.operator]
      by_cases hstrength : link.op.strength = k
      · subst hstrength
        obtain ⟨taken, left, e, s₁, rfl, hleft, hread, hrest, hgroups⟩ :=
          hoperand hbehind (Stream.rest_tail hs)
        obtain ⟨groups, taken', left', s', hsteps, hended, rfl, hleft', hrest', hfold⟩ :=
          ih left.length (by simp at hlength; omega) hrest hleft rfl
        have hstep : Succeeds (groupStep operator? operand) s (some (link.op, e)) s₁ := by
          rw [groupStep, kind_bind_iff, hcurrent, if_pos rfl]
          simp only
          rw [advance_bind_iff, hread.bind_iff]
          simp
        refine ⟨(link.op, e) :: groups, link :: (taken ++ taken'), left', s',
          .more hstep ?_ hsteps, hended, by simp, hleft', hrest', fun ks left hk => ?_⟩
        · show s₁.rest.length < s.rest.length
          simp only [hrest, hs, links, List.flatMap_append, List.flatMap_cons, List.length_append,
            List.length_cons]
          omega
        · have hbinary := hfold _ _ (.binary (Nat.le_refl _) hk hgroups)
          simpa [links, link.spells] using hbinary
      · rw [if_neg hstrength] at hcurrent
        have hweaker : link.op.strength < k := by
          have := hmore link (by simp)
          omega
        exact ⟨[], [], link :: more, s, .done s, hnone hcurrent, rfl, by simpa using hweaker, hs,
          fun ks e he => by simpa [links] using he⟩

theorem Takes.leftGrouped (hoperand : Takes (k + 1) operand) (hloop : Loops operator? k) :
    Takes k (leftGrouped operator? operand) := by
  intro s first more behind hbehind hs
  obtain ⟨taken, left, e, s₁, rfl, hleft, hread, hrest, hgroups⟩ := hoperand hbehind hs
  obtain ⟨groups, taken', left', s', hsteps, hended, rfl, hleft', hrest', hfold⟩ :=
    steps_loop hloop hoperand hbehind hrest hleft
  refine ⟨taken ++ taken', left',
    groups.foldl (fun left (op, right) => .binary op left right) e, s',
    by simp, hleft', ?_, hrest', by simpa [links] using hfold _ _ hgroups.weaken⟩
  exact hread.bind_iff.mpr ((hsteps.repeated hended).bind_iff.mpr rfl)

theorem takes_operation (depth : Nat) : Takes 1 (operation (nested depth)) := by
  unfold operation
  iterate 6 refine Takes.leftGrouped ?_ ⟨by rintro (_ | _) <;> rfl, rfl, rfl⟩
  exact takes_unary

end Grammar

/-! ## Whole operations -/

/-- **Operators are grouped by their strength.**  Names and literals with operators between them, up
to the end of a line, are read as a grouped tree of just these tokens. -/
theorem expression_groups (depth : Nat) {s : Stream} {first : Operand} {more : List Link}
    {stop : Token} {rest : List Token} (hs : s.rest = first.token :: (links more ++ stop :: rest))
    (hstop : stop.kind = .newline ∨ stop.kind = .eof) :
    ∃ e s', (Grammar.expression (Grammar.nested depth)).run s = .ok (e, s') ∧
      s'.rest = stop :: rest ∧ Groups 1 ((first.token :: links more).map (·.kind)) e := by
  obtain ⟨taken, left, e, s', rfl, hleft, hread, hrest, hgroups⟩ :=
    Grammar.takes_operation depth ⟨stop, rest, rfl, hstop⟩ hs
  obtain rfl : left = [] := by
    cases left with
    | nil => rfl
    | cons link left =>
      have hweaker := hleft link rfl
      cases hop : link.op <;> simp [hop, BinaryOp.strength] at hweaker
  have hquestion : Succeeds (Parser.eat (.symbol .question)) s' false s' := by
    rcases hstop with hstop | hstop <;>
      simp [Parser.eat, Stream.current_eq hrest, hstop]
  have hexpression : Succeeds (Grammar.expression (Grammar.nested depth)) s e s' := by
    rw [Grammar.expression, hread.bind_iff, hquestion.bind_iff]
    simp
  exact ⟨e, s', hexpression, hrest, by simpa using hgroups⟩

/-- `a < b > na * 2`: what could be the end of type arguments is the operator of a comparison. -/
theorem mixed_groups :
    ∃ e s', (Grammar.expression (Grammar.nested 8)).run (.ofTokens ([.ident "a", .symbol .lt,
      .ident "b", .symbol .gt, .ident "na", .symbol .star, .int 2, .newline].map
        (⟨·, 0, 0, .start, 0⟩))) = .ok (e, s') ∧ s'.rest = [⟨.newline, 0, 0, .start, 0⟩] ∧
      Groups 1 [.ident "a", .symbol .lt, .ident "b", .symbol .gt, .ident "na", .symbol .star,
        .int 2] e :=
  let link (op : BinaryOp) (kind : Kind) (value : Expr) (h : kind.operand? = some value) : Link :=
    ⟨⟨op.kind, 0, 0, .start, 0⟩, op, rfl, ⟨kind, 0, 0, .start, 0⟩, value, h⟩
  @expression_groups 8 _ ⟨⟨.ident "a", 0, 0, .start, 0⟩, _, rfl⟩
    [link .lt (.ident "b") _ rfl, link .gt (.ident "na") _ rfl, link .mul (.int 2) _ rfl] _ _ rfl
    (.inl rfl)

end IndicatorCompiler.Pine
