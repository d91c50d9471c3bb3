import IndicatorCompiler.Pine.Program
import IndicatorCompiler.Proofs.Agreement
import IndicatorCompiler.Proofs.Leaves
import Mathlib.Data.List.Forall2

/-!
# What the indicator parser sees and makes

A parser sees the kinds of tokens and the lines that they stand on, and nothing else of where they
stand, so that streams of tokens that differ only there are read alike.  It fails only at a token of
its stream, or at the end of the stream.  What it makes is told by a `Law`: what holds of a phrase,
among so many open brackets, if it holds of the phrases inside.  One walk through the grammar shows
that every program is read by any law.
-/

namespace IndicatorCompiler.Pine

open Scanner (depthAfter)
open Parsing (Left)
open List (forall_mem_cons forall_mem_singleton mem_singleton_self)

/-! ## Laws -/

/-- Tokens that no parser tells apart. -/
structure View where
  Same : Token → Token → Prop
  kind : ∀ {t u : Token}, Same t u → t.kind = u.kind
  line : ∀ {t u : Token}, Same t u → t.position.line = u.position.line

/-- A literal without a fraction. -/
def Expr.isPlainLiteral : Expr → Bool
  | .int _ | .str _ | .bool _ | .color _ | .na => true
  | _ => false

/-- Statements of which only the last can be a result. -/
inductive Resulting (S : StmtKind → Prop) (V : Expr → Prop) : List Stmt → Prop
  | nil : Resulting S V []
  | result {value line} (h : V value) : Resulting S V [⟨.ret (some value), line⟩]
  | cons {s rest} (hs : S s.kind) (h : Resulting S V rest) : Resulting S V (s :: rest)

/-- What holds of phrases among so many open brackets, if it holds of the phrases inside. -/
structure Law extends View where
  /-- The tokens that are read. -/
  Token : Kind → Prop
  /-- A line can end there. -/
  Line : Nat → Prop
  Expression : Nat → Expr → Prop
  /-- An expression, or `if` or `switch` in the place of one. -/
  Value : Nat → Expr → Prop
  Statement : Nat → StmtKind → Prop
  eof : Token .eof
  ident {n name} (h : Token (.ident name)) : Expression n (.ident name)
  float {n value} (h : Token (.float value)) : Expression n (.float value)
  literal {n e} (h : e.isPlainLiteral = true) : Expression n e
  group {n e} (h : Value (n + 1) e) : Expression n e
  tuple {n items} (h : ∀ e ∈ items, Expression (n + 1) e) : Expression n (.tuple items)
  call {n callee typeArgs args} (hcallee : Expression n callee)
    (hargs : ∀ a ∈ args, (∀ name ∈ a.name, Token (.ident name)) ∧ Value (n + 1) a.value) :
    Expression n (.call callee typeArgs args)
  history {n target offset} (htarget : Expression n target)
    (hoffset : Expression (n + 1) offset) : Expression n (.history target offset)
  member {n object property} (hobject : Expression n object)
    (h : Token (.ident property) ∨ ∃ k : Keyword, property = k.text) :
    Expression n (.member object property)
  unary {n op operand} (h : Expression n operand) : Expression n (.unary op operand)
  binary {n op left right} (hleft : Expression n left)
    (hright : Expression n right) : Expression n (.binary op left right)
  ternary {n test consequent alternate} (htest : Expression n test)
    (hconsequent : Expression n consequent) (halternate : Expression n alternate) :
    Expression n (.ternary test consequent alternate)
  value {n e} (h : Expression n e) : Value n e
  choice {n test consequent alternate} (htest : Expression n test)
    (hconsequent : Value n consequent) (halternate : Value n alternate) :
    Value n (.ternary test consequent alternate)
  conditional {n branches last} (hline : Line n)
    (hlifts : (branches.any (fun b => bodyNeedsLifting b.body) || last.any bodyNeedsLifting) = true)
    (htests : ∀ b ∈ branches, Expression n b.test)
    (hbodies : ∀ b ∈ branches, ∀ s ∈ b.body, Statement n s.kind)
    (hlast : ∀ body ∈ last, ∀ s ∈ body, Statement n s.kind) : Value n
      (.conditional branches last true)
  switch {n discriminant cases} (hline : Line n)
    (hdiscriminant : ∀ e ∈ discriminant, Expression n e)
    (htests : ∀ c ∈ cases, ∀ e ∈ c.test, Expression n e)
    (hbodies : ∀ c ∈ cases, ∀ s ∈ c.body, Statement n s.kind) : Value n
      (switchValue discriminant cases)
  expr {n e} (h : Value n e) : Statement n (.expr e)
  varDecl {n mode type target init}
    (hnames : ∀ name ∈ target.names, Token (.ident name)) (hinit : Value n init) :
    Statement n (.varDecl mode type target init)
  reassign {n target op value}
    (hassignable : Grammar.isAssignable target = true) (htarget : Expression n target)
    (hvalue : Value n value) : Statement n (.reassign target op value)
  ifElse {n test body otherwise} (htest : Expression n test)
    (hbody : ∀ s ∈ body, Statement n s.kind) (hotherwise : ∀ s ∈ otherwise, Statement n s.kind) :
    Statement n (.ifElse test body otherwise)
  function {n name kind params body} {exported} (hname : Token (.ident name))
    (hparams : ∀ p ∈ params, Token (.ident p.name) ∧ ∀ e ∈ p.default, Expression (n + 1) e)
    (hbody : Resulting (Statement n) (Value n) body) :
    Statement n (.function name kind params body exported)
  typeDecl {n name fields exported} (hname : Token (.ident name))
    (hfields : ∀ f ∈ fields, Token (.ident f.name) ∧ ∀ e ∈ f.default, Expression n e) :
    Statement n (.typeDecl name fields exported)
  forRange {n counter start stop step body}
    (hcounter : Token (.ident counter)) (hstart : Expression n start) (hstop : Expression n stop)
    (hstep : ∀ e ∈ step, Expression n e) (hbody : ∀ s ∈ body, Statement n s.kind) :
    Statement n (.forRange counter start stop step body)
  forIn {n target iterable body}
    (hnames : ∀ name ∈ target.names, Token (.ident name)) (hiterable : Expression n iterable)
    (hbody : ∀ s ∈ body, Statement n s.kind) : Statement n (.forIn target iterable body)
  whileLoop {n test body} (htest : Expression n test)
    (hbody : ∀ s ∈ body, Statement n s.kind) : Statement n (.whileLoop test body)
  breakLoop {n} : Statement n .breakLoop
  continueLoop {n} : Statement n .continueLoop

/-- The statement can give a function its result. -/
def StmtKind.hasResult : StmtKind → Bool
  | .expr _ | .varDecl _ _ _ _ | .reassign _ _ _ | .ifElse _ _ _ => true
  | _ => false

variable {G : Law} {n : Nat}

namespace Law

variable {body : List Stmt}

/-- A statement that is read, with what is known of its parts if it can give a function its
result. -/
inductive Made (G : Law) (n : Nat) : StmtKind → Prop
  | expr {e} (h : G.Value n e) : Made G n (.expr e)
  | varDecl {mode type target init} (hnames : ∀ name ∈ target.names, G.Token (.ident name))
      (hinit : G.Value n init) : Made G n (.varDecl mode type target init)
  | reassign {target op value} (hassignable : Grammar.isAssignable target = true)
      (htarget : G.Expression n target) (hvalue : G.Value n value) :
    Made G n (.reassign target op value)
  | ifElse {test body otherwise} (hline : G.Line n) (htest : G.Expression n test)
      (hbody : ∀ s ∈ body, Made G n s.kind) (hotherwise : ∀ s ∈ otherwise, Made G n s.kind) :
      Made G n (.ifElse test body otherwise)
  | other {kind} (hkind : kind.hasResult = false) (h : G.Statement n kind) : Made G n kind

theorem Made.statement {kind} (h : G.Made n kind) : G.Statement n kind := by
  induction h with
  | expr h => exact G.expr h
  | varDecl hnames hinit => exact G.varDecl hnames hinit
  | reassign hassignable htarget hvalue => exact G.reassign hassignable htarget hvalue
  | ifElse _ htest _ _ ihbody ihotherwise => exact G.ifElse htest ihbody ihotherwise
  | other _ h => exact h

/-- All statements of the body are read. -/
abbrev MadeBody (G : Law) (n : Nat) (body : List Stmt) : Prop := ∀ s ∈ body, G.Made n s.kind

theorem MadeBody.statement (h : G.MadeBody n body) : ∀ s ∈ body, G.Statement n s.kind :=
  fun s hs => (h s hs).statement

/-- The test and the body of a branch that is read; a line ends between them. -/
structure MadeBranch (G : Law) (n : Nat) (b : Branch) : Prop where
  line : G.Line n
  test : G.Expression n b.test
  body : G.MadeBody n b.body

/-- The branches and the last part of an `if` that is read. -/
structure MadeParts (G : Law) (n : Nat) (branches : List Branch) (last : Option (List Stmt)) :
    Prop where
  branches : ∀ b ∈ branches, G.MadeBranch n b
  last : ∀ body ∈ last, G.MadeBody n body

/-! ## Branches -/

theorem value_singleExpr? (h : G.MadeBody n body) : G.Value n ((singleExpr? body).getD .na) := by
  unfold singleExpr?
  split
  · cases h _ (mem_singleton_self _) with
    | expr hvalue => exact hvalue
    | other hkind => cases hkind
  · exact G.value (G.literal rfl)

theorem value_ternaryChain {branches last} (h : G.MadeParts n branches last) :
    G.Value n (ternaryChain branches last) := by
  obtain ⟨hbranches, hlast⟩ := h
  unfold ternaryChain
  induction branches with
  | nil =>
    cases last with
    | none => exact G.value (G.literal rfl)
    | some body => exact value_singleExpr? (hlast body rfl)
  | cons b branches ih =>
    obtain ⟨hfirst, hmore⟩ := forall_mem_cons.mp hbranches
    exact G.choice hfirst.test (value_singleExpr? hfirst.body) (ih hmore)

theorem value_ifValue {branches last} (hline : G.Line n) (h : G.MadeParts n branches last) :
    G.Value n (ifValue branches last) := by
  unfold ifValue
  split
  · rename_i hlifts
    exact G.conditional hline hlifts (fun b hb => (h.branches b hb).test)
      (fun b hb => (h.branches b hb).body.statement) fun body hbody => (h.last body hbody).statement
  · exact value_ternaryChain h

theorem made_nestedIf {line first more last} (hfirst : G.MadeBranch n first)
    (hmore : ∀ b ∈ more, G.MadeBranch n b) (hlast : G.MadeBody n last) :
    G.Made n (nestedIf line first more last) := by
  induction more generalizing first with
  | nil => exact .ifElse hfirst.line hfirst.test hfirst.body hlast
  | cons next more ih =>
    obtain ⟨hnext, hrest⟩ := forall_mem_cons.mp hmore
    exact .ifElse hfirst.line hfirst.test hfirst.body (forall_mem_singleton.mpr (ih hnext hrest))

theorem made_ifChain {test otherwise} (h : G.Made n (.ifElse test body otherwise)) :
    G.Line n ∧ G.MadeParts n (ifChain test body otherwise).1 (ifChain test body otherwise).2 := by
  fun_induction ifChain test body otherwise with
  | case1 test body test' body' otherwise line branches last heq ih =>
    cases h with
    | ifElse hline htest hbody hotherwise =>
      obtain ⟨-, hmore⟩ := ih (hotherwise _ (mem_singleton_self _))
      rw [heq] at hmore
      exact ⟨hline, forall_mem_cons.mpr ⟨⟨hline, htest, hbody⟩, hmore.branches⟩, hmore.last⟩
    | other hkind => cases hkind
  | case2 test body =>
    cases h with
    | ifElse hline htest hbody _ =>
      exact ⟨hline, forall_mem_singleton.mpr ⟨hline, htest, hbody⟩, by simp⟩
    | other hkind => cases hkind
  | case3 test body otherwise =>
    cases h with
    | ifElse hline htest hbody hotherwise =>
      exact ⟨hline, forall_mem_singleton.mpr ⟨hline, htest, hbody⟩, by simpa using hotherwise⟩
    | other hkind => cases hkind

/-- What a declaration binds can be read again. -/
theorem value_target {target : DeclTarget} (h : ∀ name ∈ target.names, G.Token (.ident name)) :
    G.Value n target.value := by
  cases target with
  | name name => exact G.value (G.ident (h name (mem_singleton_self name)))
  | tuple names =>
    exact G.value (G.tuple (List.forall_mem_map.mpr fun name hname => G.ident (h name hname)))

theorem resulting_withResult {last : Stmt} (h : G.Made n last.kind) :
    Resulting (G.Statement n) (G.Value n) (withResult last) := by
  obtain ⟨kind, line⟩ := last
  have hstatement := Made.statement h
  cases h with
  | expr hvalue => exact .result hvalue
  | varDecl hnames hinit => exact .cons hstatement (.result (value_target hnames))
  | reassign hassignable htarget hvalue => exact .cons hstatement (.result (G.value htarget))
  | ifElse hline htest hbody hotherwise =>
    obtain ⟨-, hparts⟩ := made_ifChain (.ifElse hline htest hbody hotherwise)
    exact .result (value_ifValue hline hparts)
  | other hkind hkind' =>
    have hlast : withResult ⟨kind, line⟩ = [⟨kind, line⟩] := by
      cases kind <;> first | rfl | cases hkind
    exact hlast ▸ .cons hstatement .nil

theorem resulting_functionBody (h : G.MadeBody n body) :
    Resulting (G.Statement n) (G.Value n) (functionBody body) := by
  fun_induction functionBody body with
  | case1 => exact .nil
  | case2 last => exact resulting_withResult (h last (mem_singleton_self last))
  | case3 stmt rest hne ih =>
    obtain ⟨hstmt, hrest⟩ := forall_mem_cons.mp h
    exact .cons hstmt.statement (ih hrest)

end Law

/-! ## Streams -/

/-- A token of the kind is not the end. -/
class Kind.Passes (k : Kind) : Prop where
  ne_eof : k ≠ .eof

namespace Kind

instance (name : String) : (ident name).Passes := ⟨nofun⟩
instance (value : Nat) : (int value).Passes := ⟨nofun⟩
instance (value : Number.Double) : (float value).Passes := ⟨nofun⟩
instance (value : String) : (str value).Passes := ⟨nofun⟩
instance (text : String) : (color text).Passes := ⟨nofun⟩
instance (k : Keyword) : (keyword k).Passes := ⟨nofun⟩
instance (s : Symbol) : (symbol s).Passes := ⟨nofun⟩
instance : newline.Passes := ⟨nofun⟩
instance : indent.Passes := ⟨nofun⟩
instance : dedent.Passes := ⟨nofun⟩

end Kind

variable {r : List Pine.Token} {c : Bool}

/-- Lines end among the tokens only where they can, with `n` brackets open in front of the first
token. -/
def LinesAt (L : Nat → Prop) : Nat → List Token → Prop
  | _, [] => True
  | n, t :: rest => (t.kind = .newline → L n) ∧ LinesAt L (depthAfter n t.kind) rest

theorem linesAt_true (tokens : List Token) : LinesAt (fun _ => True) n tokens := by
  induction tokens generalizing n with
  | nil => trivial
  | cons t rest ih => exact ⟨fun _ => trivial, ih⟩

theorem LinesAt.dropNewlines {L : Nat → Prop} {last tokens} (h : LinesAt L n tokens) :
    LinesAt L n (Stream.dropNewlines last tokens).1 := by
  fun_induction Stream.dropNewlines last tokens with
  | case1 => exact h
  | case2 last t rest hk ih =>
    refine ih ?_
    have hrest := h.2
    rwa [hk] at hrest
  | case3 => exact h

namespace Stream

theorem tail_rest (s : Stream) : s.tail.rest = s.rest.tail := by obtain ⟨_ | _, _, _⟩ := s <;> rfl

/-- The next tokens are of these kinds. -/
def Faces : List Kind → Stream → Prop
  | [], _ => True
  | k :: ks, s => s.current.kind = k ∧ s.tail.Faces ks

theorem dropNewlines_suffix (last : Option Kind) (tokens : List Token) :
    (dropNewlines last tokens).1 <:+ tokens := by
  induction tokens generalizing last with
  | nil => exact List.suffix_refl _
  | cons t rest ih =>
    unfold dropNewlines
    split
    · exact (ih _).trans (List.suffix_cons t rest)
    · exact List.suffix_refl _

end Stream

namespace View

/-- The same expectation fails at related tokens. -/
inductive Errors (V : View) : ParseError → ParseError → Prop
  | found {t u} (h : V.Same t u) (expected : Expected) :
    Errors V ⟨expected, t.kind, t.position⟩ ⟨expected, u.kind, u.position⟩

theorem map_kind (V : View) {ts us} (h : List.Forall₂ V.Same ts us) :
    ts.map (·.kind) = us.map (·.kind) := by
  induction h with
  | nil => rfl
  | cons htoken _ ih => simp [V.kind htoken, ih]

/-- Ends of lines are not at the end. -/
theorem dropNewlines (V : View) (last : Option Kind) {ts us pad} (h : List.Forall₂ V.Same ts us)
    (hpad : ∀ t ∈ pad, t.kind = .eof) :
    ∃ vs, Stream.dropNewlines last (us ++ pad) = (vs ++ pad, (Stream.dropNewlines last ts).2) ∧
      List.Forall₂ V.Same (Stream.dropNewlines last ts).1 vs := by
  induction h generalizing last with
  | nil =>
    refine ⟨[], ?_, .nil⟩
    cases pad with
    | nil => rfl
    | cons t pad => simp [Stream.dropNewlines, hpad t List.mem_cons_self]
  | @cons t u ts us htoken hrest ih =>
    simp only [List.cons_append, Stream.dropNewlines, V.kind htoken]
    split
    · exact ih (some .newline)
    · exact ⟨u :: us, rfl, .cons htoken hrest⟩

end View

namespace Law

/-- Streams of related tokens by a law, among `n` open brackets and in front of tokens of these
kinds.  The second may have more end tokens.  The tokens of the first are the last ones of `r`, and
with `c`, some of these have been read. -/
structure Ahead (G : Law) (r : List Pine.Token) (c : Bool) (n : Nat) (ks : List Kind)
    (s t : Stream) : Prop where
  rest : ∃ us m, List.Forall₂ G.Same s.rest us ∧ t.rest = us ++ List.replicate m t.ending
  last : s.last = t.last
  ending : G.Same s.ending t.ending
  ended : s.ending.kind = .eof
  tokens : ∀ u ∈ s.rest, G.Token u.kind
  lines : LinesAt G.Line n s.rest
  left : Left r c s.rest
  faces : s.Faces ks

/-- Streams of related tokens by a law, among `n` open brackets. -/
abbrev Streams (G : Law) (r : List Pine.Token) (c : Bool) (n : Nat) : Stream → Stream → Prop :=
  G.Ahead r c n []

/-- From streams of related tokens the parsers return the same, which has `P`, or fail at related
tokens.  They close the brackets that they open. -/
abbrev Keeps {α : Type} (G : Law) (r : List Pine.Token) (c : Bool) (n : Nat) (x y : Parser α)
    (P : α → Prop) : Prop :=
  Agrees (G.Streams r c n) (fun _ => G.Streams r c n) G.Errors x y P

/-- Besides, they read a token, unless one has been read already. -/
abbrev Reads {α : Type} (G : Law) (r : List Pine.Token) (c : Bool) (n : Nat) (x y : Parser α)
    (P : α → Prop) : Prop :=
  Agrees (G.Streams r c n) (fun _ => G.Streams r true n) G.Errors x y P

/-- The parsers return values while they read tokens. -/
abbrev Strides {α : Type} (G : Law) (r : List Pine.Token) (n : Nat) (x y : Parser (Option α))
    (P : α → Prop) : Prop :=
  Agrees (G.Streams r false n) (fun a => G.Streams r a.isSome n) G.Errors x y fun a => ∀ b ∈ a, P b

/-- Some token has been read, so that what is left is shorter. -/
abbrev Below {α : Type} (G : Law) (r : List Pine.Token) (n : Nat) (x y : Parser α)
    (P : α → Prop) : Prop :=
  ∀ r', Left r true r' → G.Reads r' false n x y P

namespace Ahead

variable {s t : Stream} {ks : List Kind} {k : Kind}

theorem streams (h : G.Ahead r c n ks s t) : G.Streams r c n s t := { h with faces := trivial }

theorem ending_kind (h : G.Ahead r c n ks s t) : t.ending.kind = .eof := G.kind h.ending ▸ h.ended

theorem current (h : G.Ahead r c n ks s t) : G.Same s.current t.current := by
  obtain ⟨⟨us, m, hrest, htokens⟩, -, hending, -⟩ := h
  obtain ⟨rest, last, ending⟩ := s
  obtain ⟨rest', last', ending'⟩ := t
  obtain rfl : rest' = us ++ List.replicate m ending' := htokens
  cases hrest with
  | nil => cases m <;> exact hending
  | cons htoken => exact htoken

/-- What stands behind the tokens is the end. -/
theorem map_kind (h : G.Ahead r c n ks s t) :
    ∃ m, t.rest.map (·.kind) = s.rest.map (·.kind) ++ List.replicate m .eof := by
  obtain ⟨us, m, hrest, htokens⟩ := h.rest
  exact ⟨m, by simp [htokens, G.toView.map_kind hrest, h.ending_kind]⟩

theorem token_peek (h : G.Ahead r c n ks s t) (i : Nat) : G.Token (s.peek i) := by
  unfold Stream.peek
  cases hget : s.rest[i]? with
  | none => exact G.eof
  | some u => exact h.tokens u (List.mem_of_getElem? hget)

theorem kind_current (h : G.Ahead r c n ks s t) : s.current.kind = s.peek 0 := by
  obtain ⟨rest, last, ending⟩ := s
  cases rest with
  | nil => exact h.ended
  | cons t rest => rfl

theorem peek (h : G.Ahead r c n ks s t) (i : Nat) : s.peek i = t.peek i := by
  obtain ⟨m, hkinds⟩ := h.map_kind
  simp only [Stream.peek, ← List.getElem?_map, hkinds, List.getElem?_append,
    List.getElem?_replicate]
  split
  · rfl
  · rw [List.getElem?_eq_none (by omega)]
    split <;> rfl

/-- The token after the next one is the next one behind it. -/
theorem kind_tail (h : G.Ahead r c n ks s t) : s.tail.current.kind = s.peek 1 := by
  obtain ⟨rest, last, ending⟩ := s
  match rest with
  | [] | [t] => exact h.ended
  | t :: u :: rest => rfl

theorem tail [hk : k.Passes] (h : G.Ahead r c n (k :: ks) s t) :
    G.Ahead r true (depthAfter n k) ks s.tail t.tail := by
  obtain ⟨rest, last, ending⟩ := s
  obtain ⟨rest', last', ending'⟩ := t
  obtain ⟨⟨us, m, hrest, hpadded⟩, hlast, hending, hended, htokens, hlines, hleft, rfl, hfaces⟩ := h
  obtain rfl : rest' = us ++ List.replicate m ending' := hpadded
  cases hrest with
  | nil => exact absurd hended hk.ne_eof
  | @cons _ _ _ us htoken hrest =>
    exact ⟨⟨us, m, hrest, rfl⟩, by simp [Stream.tail, G.kind htoken], hending, hended,
      (forall_mem_cons.mp htokens).2, hlines.2, hleft.tail, hfaces⟩

theorem line (h : G.Ahead r c n (.newline :: ks) s t) : G.Line n := by
  obtain ⟨rest, last, ending⟩ := s
  cases rest with
  | nil => exact absurd (h.ended.symm.trans h.faces.1) (by simp)
  | cons t rest => exact h.lines.1 h.faces.1

theorem skipNewlines (h : G.Streams r c n s t) : G.Streams r c n s.skipNewlines t.skipNewlines := by
  have hsuffix := Stream.dropNewlines_suffix s.last s.rest
  obtain ⟨us, m, hrest, htokens⟩ := h.rest
  have hpad u (hu : u ∈ List.replicate m t.ending) : u.kind = .eof :=
    List.eq_of_mem_replicate hu ▸ h.ending_kind
  obtain ⟨vs, hvs, hsame⟩ := G.dropNewlines s.last hrest hpad
  rw [← htokens, h.last] at hvs
  refine ⟨⟨vs, m, hsame, ?_⟩, ?_, h.ending, h.ended, fun u hu => h.tokens u (hsuffix.subset hu),
    h.lines.dropNewlines, h.left.keep (d := false) ⟨hsuffix, nofun⟩, trivial⟩ <;>
    simp [Stream.skipNewlines, hvs, h.last]

theorem based : Parsing.Based Stream.rest fun r c => G.Streams r c n where
  tokens h := h.left
  rebase h h' := { h with left := h' }
  enough {r c s t} h := by
    obtain ⟨us, m, hrest, htokens⟩ := h.rest
    refine ⟨Nat.le_refl _, ?_⟩
    show s.rest.length ≤ t.rest.length
    rw [htokens, List.length_append, hrest.length_eq]
    exact Nat.le_add_right _ _

end Ahead

end Law

/-! ## Parsers of tokens -/

namespace Parser

variable {α β : Type} {P : α → Prop} {S : Stream → Stream → Prop} {T : α → Stream → Stream → Prop}
  {ks : List Kind} {k : Kind} {x y : Parser α}

theorem reads_ahead (h : Agrees (G.Streams r c n) T G.Errors x y P) :
    Agrees (G.Ahead r c n ks) T G.Errors x y P :=
  fun _ _ hst => h hst.streams

theorem reads_weaken (h : Agrees S (fun _ => G.Streams r true n) G.Errors x y P) :
    Agrees S (fun _ => G.Streams r c n) G.Errors x y P :=
  Law.Ahead.based.agrees_weaken h

theorem reads_below (h : G.Below r n x y P) : G.Reads r true n x y P :=
  Law.Ahead.based.agrees_rebase h

theorem reads_kind_bind {f g : Kind → Parser α}
    (h : ∀ k, G.Token k → Agrees (G.Ahead r c n [k]) T G.Errors (f k) (g k) P) :
    Agrees (G.Streams r c n) T G.Errors (kind >>= f) (kind >>= g) P := by
  intro s t hst
  have hk := h _ (hst.kind_current ▸ hst.token_peek 0) { hst with faces := ⟨rfl, trivial⟩ }
  show Agreed T G.Errors P (f s.current.kind s) (g t.current.kind t)
  rwa [← G.kind hst.current]

theorem reads_following_bind {f g : Kind → Parser α}
    (h : ∀ next, G.Token next → Agrees (G.Ahead r c n [k, next]) T G.Errors (f next) (g next) P) :
    Agrees (G.Ahead r c n [k]) T G.Errors (following >>= f) (following >>= g) P := by
  intro s t hst
  have hk := h (s.peek 1) (hst.token_peek 1)
    { hst with faces := ⟨hst.faces.1, hst.kind_tail, trivial⟩ }
  show Agreed T G.Errors P (f (s.peek 1) s) (g (t.peek 1) t)
  rwa [← hst.peek 1]

theorem reads_advance_bind [k.Passes] {f g : Unit → Parser α}
    (h : Agrees (G.Ahead r true (depthAfter n k) ks) T G.Errors (f ()) (g ()) P) :
    Agrees (G.Ahead r c n (k :: ks)) T G.Errors (advance >>= f) (advance >>= g) P :=
  fun _ _ hst => h hst.tail

theorem reads_line : G.Keeps r c n line line fun _ => True := by
  refine agrees_get_bind fun s t hst => ?_
  rw [G.line hst.current]
  exact agrees_pure trivial

theorem reads_refuse {expected} :
    Agrees (G.Ahead r c n ks) T G.Errors (refuse expected) (refuse expected) P :=
  agrees_get_bind fun _ _ h => agrees_throw (.found h.current expected)

theorem reads_at? (k : Kind) : G.Keeps r c n (at? k) (at? k) fun _ => True :=
  reads_kind_bind fun _ _ => reads_ahead (agrees_pure trivial)

theorem reads_eat_bind [k.Passes] {f g : Bool → Parser α}
    (htrue : Agrees (G.Streams r true (depthAfter n k)) T G.Errors (f true) (g true) P)
    (hfalse : Agrees (G.Streams r c n) T G.Errors (f false) (g false) P) :
    Agrees (G.Streams r c n) T G.Errors (eat k >>= f) (eat k >>= g) P := by
  simp only [eat, at?, bind_assoc]
  refine reads_kind_bind fun found _ => ?_
  by_cases hfound : found = k
  · subst hfound
    simpa using reads_advance_bind htrue
  · simpa [hfound] using reads_ahead hfalse

theorem reads_comma : Agrees (G.Streams r false n) (fun found => G.Streams r found n) G.Errors
    (eat (.symbol .comma)) (eat (.symbol .comma)) fun _ => True := by
  rw [← bind_pure (eat _)]
  exact reads_eat_bind (fun _ _ hst => .ok trivial hst) fun _ _ hst => .ok trivial hst

theorem reads_need [k.Passes] {expected} :
    Agrees (G.Streams r c n) (fun _ => G.Streams r true (depthAfter n k)) G.Errors (need k expected)
      (need k expected) fun _ => k = .newline → G.Line n := by
  simp only [need, eat, at?, bind_assoc]
  refine reads_kind_bind fun found _ => ?_
  by_cases hfound : found = k
  · subst hfound
    have hread : Agrees (G.Ahead r c n [found]) (fun _ => G.Streams r true (depthAfter n found))
        G.Errors advance advance fun _ => found = .newline → G.Line n :=
      fun _ _ hst => .ok (fun hline => Law.Ahead.line (hline ▸ hst)) hst.tail
    simpa using hread
  · simpa [hfound] using reads_refuse

theorem reads_identifier :
    G.Reads r c n identifier identifier fun name => G.Token (.ident name) := by
  refine reads_kind_bind fun k hk => ?_
  split
  · exact reads_advance_bind (agrees_pure hk)
  · exact reads_refuse

theorem reads_skipNewlines : G.Keeps r c n skipNewlines skipNewlines fun _ => True :=
  agrees_modify fun _ _ h => h.skipNewlines

theorem reads_atBlockEnd : G.Keeps r c n atBlockEnd atBlockEnd fun _ => True := by
  refine reads_kind_bind fun k _ => reads_ahead ?_
  split <;> exact agrees_pure trivial

theorem reads_endStatement : G.Reads r true n endStatement endStatement fun _ => True := by
  refine agrees_get_bind fun s t h => ?_
  rw [h.last]
  split
  · exact agrees_pure trivial
  · refine reads_eat_bind (agrees_pure trivial) (reads_atBlockEnd.bind fun atEnd _ => ?_)
    cases atEnd with
    | true => exact agrees_pure trivial
    | false => exact reads_refuse

theorem reads_repeated {step step'} (h : ∀ r', Left r c r' → G.Strides r' n step step' P) :
    G.Keeps r c n (Parsing.repeated step) (Parsing.repeated step') fun as => ∀ a ∈ as, P a :=
  Law.Ahead.based.agrees_repeated h

theorem reads_commaItems {close} (h : G.Below r n x y P) :
    G.Reads r true n (commaItems close x) (commaItems close y) fun as => ∀ a ∈ as, P a :=
  Law.Ahead.based.agrees_items (fun _ => reads_at? _) (fun _ => reads_comma) fun r' hr =>
    reads_weaken (h r' hr)

theorem reads_commaItemsOne (h : G.Below r n x y P) :
    G.Reads r true n (commaItemsOne x) (commaItemsOne y) fun as => ∀ a ∈ as, P a :=
  (Law.Ahead.based.agrees_itemsOne (fun _ => reads_comma) (reads_below h) h).mono fun _ has => has.2

theorem reads_indented {newline opening} (h : G.Below r n x y P) :
    G.Reads r c n (indented x newline opening) (indented y newline opening)
      fun as => G.Line n ∧ ∀ a ∈ as, P a := by
  refine reads_need.bind fun _ hline => ?_
  refine reads_skipNewlines.then ?_
  refine reads_need.then ?_
  refine (reads_repeated (P := P) fun r' hr => ?_).bind fun as has => ?_
  · refine reads_skipNewlines.then ?_
    refine reads_atBlockEnd.bind fun ended _ => ?_
    cases ended with
    | true => exact agrees_none
    | false => exact (h r' hr).bind fun a ha => agrees_some ha
  · exact reads_eat_bind (agrees_pure ⟨hline rfl, has⟩) (agrees_pure ⟨hline rfl, has⟩)

end Parser

/-! ## Expressions -/

/-- The nested parsers read by the law when some token has been read. -/
structure Nested.Reads (G : Law) (r : List Token) (x y : Nested) : Prop where
  type (n : Nat) : G.Below r n x.type y.type fun _ => True
  unary (n : Nat) : G.Below r n x.unary y.unary (G.Expression n)
  expression (n : Nat) : G.Below r n x.expression y.expression (G.Expression n)
  value (n : Nat) : G.Below r n x.value y.value (G.Value n)
  statement (n : Nat) : G.Below r n x.statement y.statement fun s => G.Made n s.kind

theorem Nested.Reads.within {x y : Nested} (h : x.Reads G r y) {r'} (hr : Left r c r') :
    x.Reads G r' y :=
  ⟨fun n u hu => h.type n u (hr.trans hu), fun n u hu => h.unary n u (hr.trans hu),
    fun n u hu => h.expression n u (hr.trans hu), fun n u hu => h.value n u (hr.trans hu),
    fun n u hu => h.statement n u (hr.trans hu)⟩

/-- What a parser of the grammar gives, with nested parsers that read by the law. -/
abbrev Nested.Reads.Gives {α : Type} {x y : Nested} (_ : x.Reads G r y) (c : Bool) (n : Nat)
    (f : Nested → Parser α) (P : α → Prop) : Prop :=
  G.Reads r c n (f x) (f y) P

namespace Grammar

variable {k : Kind} {us ts : List Token} {x y : Nested}

open IndicatorCompiler.Pine.Parser

/-- The parsers of phrases whose nested phrases `inside` reads. -/
def around (inside : Nested) : Nested where
  type := type inside
  unary := unary inside
  expression := expression inside
  value := value inside
  statement := statement inside

/-- `depth` levels of nesting, with `base` in place of parsers that refuse what is nested deeper. -/
def nestedOver (base : Nested) : (depth : Nat) → Nested
  | 0 => base
  | depth + 1 => around (nestedOver base depth)

theorem nested_eq (depth : Nat) : nested depth = nestedOver (nested 0) depth := by
  induction depth with
  | zero => rfl
  | succ depth ih => exact congrArg around ih

theorem reads_qualifier? : G.Keeps r c n qualifier? qualifier? fun _ => True := by
  refine reads_kind_bind fun k _ => ?_
  split
  iterate 3 · exact reads_weaken (reads_advance_bind (agrees_pure trivial))
  · exact reads_ahead (agrees_pure trivial)

theorem reads_dottedStep : G.Strides r n dottedStep dottedStep fun _ => True := by
  refine reads_kind_bind fun k _ => reads_following_bind fun next _ => ?_
  split
  · exact reads_advance_bind (reads_advance_bind (agrees_some trivial))
  · exact reads_ahead agrees_none

theorem reads_arrayMark : G.Reads r true n arrayMark arrayMark fun _ => True := by
  refine reads_kind_bind fun k _ => reads_following_bind fun next _ => ?_
  split
  · exact reads_advance_bind (reads_advance_bind (agrees_pure trivial))
  · exact reads_ahead (agrees_pure trivial)

theorem reads_typeArgs (h : G.Below r n x.type y.type fun _ => True) :
    G.Reads r c n (typeArgs x) (typeArgs y) fun _ => True := by
  refine reads_need.then ?_
  refine (reads_commaItemsOne h).bind fun _ _ => ?_
  exact reads_need.then (agrees_pure trivial)

theorem reads_type (h : G.Below r n x.type y.type fun _ => True) :
    G.Reads r c n (type x) (type y) fun _ => True := by
  refine reads_identifier.bind fun first _ => ?_
  refine (reads_repeated fun _ _ => reads_dottedStep).bind fun more _ => ?_
  refine (reads_at? _).bind fun found _ => ?_
  cases found with
  | true =>
    exact (reads_typeArgs h).bind fun _ _ => reads_arrayMark.bind fun _ _ => agrees_pure trivial
  | false => exact reads_arrayMark.bind fun _ _ => agrees_pure trivial

/-- Operators open and close no brackets, and end no lines. -/
theorem depthAfter_operator {op} {operator? : Kind → Option BinaryOp}
    (h : operator? ∈ [disjunction?, conjunction?, equality?, comparison?, additive?,
      multiplicative?])
    (hk : operator? k = some op) : depthAfter n k = n ∧ k.Passes := by
  simp only [List.mem_cons, List.not_mem_nil, or_false] at h
  rcases h with rfl | rfl | rfl | rfl | rfl | rfl <;>
    simp only [disjunction?, conjunction?, equality?, comparison?, additive?,
      multiplicative?] at hk <;>
    split at hk <;> first | exact ⟨rfl, inferInstance⟩ | cases hk

theorem depthAfter_assignOp {op} (hk : assignOp? k = some op) : depthAfter n k = n ∧ k.Passes := by
  unfold assignOp? at hk
  split at hk <;> first | exact ⟨rfl, inferInstance⟩ | cases hk

theorem reads_leftGrouped {operator? : Kind → Option BinaryOp} {operand operand'}
    (hoperand : ∀ {r'} c, Left r false r' → G.Reads r' c n operand operand' (G.Expression n))
    (h : operator? ∈ [disjunction?, conjunction?, equality?, comparison?, additive?,
      multiplicative?])
    {r'} (c : Bool) (hr : Left r false r') :
    G.Reads r' c n (leftGrouped operator? operand) (leftGrouped operator? operand')
      (G.Expression n) := by
  refine (hoperand c hr).bind fun first hfirst => ?_
  refine (reads_repeated (P := fun step => G.Expression n step.2) fun u hu => ?_).bind
    fun more hmore => agrees_pure ?_
  · refine reads_kind_bind fun k _ => ?_
    split
    · exact reads_ahead agrees_none
    · rename_i hk
      obtain ⟨hdepth, hpasses⟩ := depthAfter_operator (n := n) h hk
      refine reads_advance_bind ?_
      rw [hdepth]
      exact (hoperand true (hr.keep hu)).bind fun right hright => agrees_some hright
  · induction more generalizing first with
    | nil => exact hfirst
    | cons step more ih =>
      obtain ⟨hstep, hrest⟩ := forall_mem_cons.mp hmore
      exact ih _ (G.binary hfirst hstep) hrest

/-! ## Heads of declarations -/

/-- The first tokens are of the same kinds, up to end tokens. -/
def SameKinds (ts us : List Token) : Prop :=
  ∃ m m', ts.map (·.kind) ++ List.replicate m .eof = us.map (·.kind) ++ List.replicate m' .eof

theorem sameKinds {s t ks} (h : G.Ahead r c n ks s t) : SameKinds s.rest t.rest :=
  let ⟨m, h⟩ := h.map_kind
  ⟨m, 0, by simp [h]⟩

theorem SameKinds.symm (h : SameKinds ts us) : SameKinds us ts :=
  let ⟨m, m', h⟩ := h
  ⟨m', m, h.symm⟩

theorem SameKinds.cons {start stop p indent} (h : SameKinds (⟨k, start, stop, p, indent⟩ :: ts) us)
    (hk : k ≠ .eof) : ∃ start stop p indent vs, us = ⟨k, start, stop, p, indent⟩ :: vs ∧
      SameKinds ts vs := by
  obtain ⟨m, m', h⟩ := h
  cases us with
  | nil =>
    cases m' with
    | zero => cases h
    | succ m' => exact absurd (List.cons.inj h).1 hk
  | cons u us =>
    obtain ⟨kind, start, stop, p, indent⟩ := u
    obtain ⟨rfl, hrest⟩ := List.cons.inj h
    exact ⟨start, stop, p, indent, us, rfl, m, m', hrest⟩

theorem isTupleHead_of_kinds (h : SameKinds ts us) (hhead : isTupleHead ts = true) :
    isTupleHead us = true := by
  fun_induction isTupleHead ts generalizing us with
  | case1 name _ _ _ _ _ _ _ _ rest ih =>
    obtain ⟨_, _, _, _, vs, rfl, hrest⟩ := h.cons nofun
    obtain ⟨_, _, _, _, ws, rfl, hbehind⟩ := hrest.cons nofun
    show isTupleHead ws = true
    exact ih hbehind hhead
  | case2 =>
    obtain ⟨_, _, _, _, vs, rfl, hrest⟩ := h.cons nofun
    obtain ⟨_, _, _, _, ws, rfl, hbehind⟩ := hrest.cons nofun
    obtain ⟨_, _, _, _, xs, rfl, _⟩ := hbehind.cons nofun
    rfl
  | case3 => cases hhead

theorem isTupleHead_eq (h : SameKinds ts us) : isTupleHead ts = isTupleHead us :=
  Bool.eq_iff_iff.mpr ⟨isTupleHead_of_kinds h, isTupleHead_of_kinds h.symm⟩

theorem SameKinds.head_eq (h : SameKinds ts us) (f : Kind → Bool) (hf : f .eof = false) :
    ts.head?.any (f ·.kind) = us.head?.any (f ·.kind) := by
  have hhead (ts : List Token) (m : Nat) :
      (ts.map Token.kind ++ List.replicate m Kind.eof).head?.any f = ts.head?.any (f ·.kind) := by
    cases ts <;> cases m <;> simp [hf, List.replicate_succ]
  obtain ⟨m, m', h⟩ := h
  rw [← hhead ts m, h, hhead]

theorem closesBeforeArrow_end {depth : Nat} (h : us.head?.any (·.kind != .eof) = false) :
    closesBeforeArrow depth us = false := by
  cases us with
  | nil => rfl
  | cons u us =>
    have hk : u.kind = .eof := by simpa using h
    simp [closesBeforeArrow, hk]

theorem closesBeforeArrow_eq (h : SameKinds ts us) (depth : Nat) :
    closesBeforeArrow depth ts = closesBeforeArrow depth us := by
  induction ts generalizing us depth with
  | nil => exact (closesBeforeArrow_end (h.head_eq (· != .eof) rfl).symm).symm
  | cons t ts ih =>
    obtain ⟨k, start, stop, p, indent⟩ := t
    by_cases hk : k = .eof
    · subst hk
      exact (closesBeforeArrow_end (h.head_eq (· != .eof) rfl).symm).symm
    · obtain ⟨_, _, _, _, us, rfl, hrest⟩ := h.cons hk
      simp only [closesBeforeArrow, hrest.head_eq (· == .symbol .fatArrow) rfl, ih hrest]

theorem isFunctionHead_of_kinds (h : SameKinds ts us) (hhead : isFunctionHead ts = true) :
    isFunctionHead us = true := by
  unfold isFunctionHead at hhead
  split at hhead
  · obtain ⟨_, _, _, _, vs, rfl, hrest⟩ := h.cons nofun
    rw [closesBeforeArrow_eq hrest] at hhead
    obtain ⟨_, _, _, _, ws, rfl, _⟩ := hrest.cons nofun
    exact hhead
  · cases hhead

theorem isFunctionHead_eq (h : SameKinds ts us) : isFunctionHead ts = isFunctionHead us :=
  Bool.eq_iff_iff.mpr ⟨isFunctionHead_of_kinds h, isFunctionHead_of_kinds h.symm⟩

/-! ## The grammar of expressions -/

/-- The argument is read by the law. -/
abbrev ArgumentRead (G : Law) (n : Nat) (a : Argument) : Prop :=
  (∀ name ∈ a.name, G.Token (.ident name)) ∧ G.Value n a.value

/-- The suffix is read by the law. -/
def SuffixRead (G : Law) (n : Nat) : Suffix → Prop
  | .call _ args => ∀ a ∈ args, ArgumentRead G (n + 1) a
  | .history offset => G.Expression (n + 1) offset
  | .member property => G.Token (.ident property) ∨ ∃ k : Keyword, property = k.text

theorem expression_foldl_suffix {more : List Suffix} {e} (he : G.Expression n e)
    (h : ∀ suffix ∈ more, SuffixRead G n suffix) : G.Expression n (more.foldl Suffix.apply e) := by
  induction more generalizing e with
  | nil => exact he
  | cons suffix more ih =>
    obtain ⟨hfirst, hrest⟩ := forall_mem_cons.mp h
    refine ih ?_ hrest
    cases suffix with
    | call typeArgs args => exact G.call he hfirst
    | history offset => exact G.history he hfirst
    | member property => exact G.member he hfirst

variable (h : x.Reads G r y)
include h

theorem reads_argument : G.Below r n (argument x) (argument y) (ArgumentRead G n) := by
  intro r' hr
  refine reads_kind_bind fun k hk => reads_following_bind fun next _ => ?_
  split
  · have hvalue := reads_below ((h.within hr).value n)
    exact reads_advance_bind (reads_advance_bind
      (hvalue.bind fun value hvalue => agrees_pure ⟨by simpa using hk, hvalue⟩))
  · exact reads_ahead ((h.value n r' hr).bind fun value hvalue => agrees_pure ⟨by simp, hvalue⟩)

theorem reads_arguments : Agrees (G.Streams r true (n + 1)) (fun _ => G.Streams r true n) G.Errors
    (arguments x) (arguments y) fun args => ∀ a ∈ args, ArgumentRead G (n + 1) a := by
  refine (reads_commaItems (reads_argument h)).bind fun args hargs => ?_
  exact reads_need.then (agrees_pure hargs)

theorem reads_atom : h.Gives c n atom (G.Expression n) := by
  refine reads_kind_bind fun k hk => ?_
  split
  · refine reads_advance_bind ((reads_at? _).bind fun found _ => ?_)
    split
    · exact agrees_pure (G.literal rfl)
    · exact agrees_pure (G.ident hk)
  · exact reads_advance_bind (agrees_pure (G.literal rfl))
  · exact reads_advance_bind (agrees_pure (G.float hk))
  iterate 4 · exact reads_advance_bind (agrees_pure (G.literal rfl))
  · refine reads_advance_bind ((reads_below (h.value (n + 1))).bind fun value hvalue => ?_)
    exact reads_need.then (agrees_pure (G.group hvalue))
  · refine reads_advance_bind ((reads_commaItems (h.expression (n + 1))).bind
      fun values hvalues => ?_)
    exact reads_need.then (agrees_pure (G.tuple hvalues))
  · exact reads_refuse

theorem reads_callTypeArgs? : G.Strides r n (callTypeArgs? x) (callTypeArgs? y) fun _ => True := by
  refine Parsing.agrees_attempt (T := fun b => G.Streams r b n) ?_
  refine (reads_typeArgs (h.type n)).bind fun args _ => ?_
  refine (reads_at? _).bind fun found _ => ?_
  cases found with
  | true => exact agrees_some trivial
  | false => exact agrees_none

theorem reads_suffix? : G.Strides r n (suffix? x) (suffix? y) (SuffixRead G n) := by
  refine reads_kind_bind fun k _ => ?_
  split
  · exact reads_advance_bind ((reads_arguments h).bind fun args hargs => agrees_some hargs)
  · refine reads_ahead ((reads_callTypeArgs? h).bind fun typeArgs _ => ?_)
    cases typeArgs with
    | none => exact agrees_none
    | some typeArgs =>
      refine reads_need.then ?_
      exact (reads_arguments h).bind fun args hargs => agrees_some hargs
  · refine reads_advance_bind ((reads_below (h.expression (n + 1))).bind fun offset hoffset => ?_)
    exact reads_need.then (agrees_some hoffset)
  · refine reads_advance_bind (reads_kind_bind fun k hk => ?_)
    split
    · exact reads_advance_bind (agrees_some (.inl hk))
    · exact reads_advance_bind (agrees_some (.inr ⟨_, rfl⟩))
    · exact reads_refuse
  · exact reads_ahead agrees_none

theorem reads_unary : h.Gives c n unary (G.Expression n) := by
  have hsigned (op : UnaryOp) :
      h.Gives true n (fun x => do return .unary op (← x.unary)) (G.Expression n) :=
    (reads_below (h.unary n)).bind fun _ he => agrees_pure (G.unary he)
  refine reads_kind_bind fun k _ => ?_
  split
  · exact reads_advance_bind (hsigned .neg)
  · exact reads_advance_bind (hsigned .plus)
  · exact reads_advance_bind (hsigned .not)
  · refine reads_ahead ((reads_atom h).bind fun first hfirst => ?_)
    refine (reads_repeated fun _ hr => reads_suffix? (h.within hr)).bind fun more hmore => ?_
    exact agrees_pure (expression_foldl_suffix hfirst hmore)

theorem reads_expression : h.Gives c n expression (G.Expression n) := by
  have hoperation {r'} (c : Bool) (hr : Left r false r') :
      G.Reads r' c n (operation x) (operation y) (G.Expression n) := by
    revert r' c
    unfold operation
    iterate 6 refine reads_leftGrouped ?_ (by simp)
    exact fun _ hr => reads_unary (h.within hr)
  have hbranch := reads_below (h.expression n)
  refine (hoperation c .refl).bind fun test htest => reads_eat_bind ?_ (agrees_pure htest)
  refine hbranch.bind fun consequent hconsequent => reads_need.then ?_
  refine hbranch.bind fun alternate halternate => ?_
  exact agrees_pure (G.ternary htest hconsequent halternate)

/-- An expression that could be left out. -/
theorem reads_option :
    h.Gives c n (fun x => some <$> expression x) fun d => ∀ e ∈ d, G.Expression n e :=
  (reads_expression h).map (by simp)

/-! ## The grammar of statements -/

theorem reads_block : h.Gives c n block fun body => G.Line n ∧ G.MadeBody n body :=
  reads_indented (h.statement n)

theorem reads_branch : h.Gives c n branch (G.MadeBranch n) := by
  refine (reads_expression h).bind fun test htest => ?_
  refine (reads_block h).bind fun body hbody => ?_
  exact agrees_pure ⟨hbody.1, htest, hbody.2⟩

theorem reads_elseParts {fuel fuel' : Nat} (hfuel : r.length < fuel) (hfuel' : r.length < fuel') :
    G.Keeps r false n (elseParts x fuel) (elseParts y fuel') fun parts =>
      G.MadeParts n parts.1 parts.2 := by
  have hnone : G.MadeParts n [] none := ⟨by simp, by simp⟩
  induction fuel generalizing r fuel' with
  | zero => omega
  | succ fuel ih =>
    obtain _ | fuel' := fuel'
    · omega
    · refine reads_eat_bind (reads_weaken (reads_eat_bind ?_ ?_)) (agrees_pure hnone)
      · refine (reads_branch h).bind fun next hnext => ?_
        refine Agrees.bind (P := fun parts => G.MadeParts n parts.1 parts.2)
          (Law.Ahead.based.agrees_rebase (d := fun _ => false) fun r' hr => ?_)
          fun more hmore => ?_
        · have := hr.2 rfl
          exact ih (h.within hr) (by omega) (by omega)
        · exact agrees_pure ⟨forall_mem_cons.mpr ⟨hnext, hmore.branches⟩, hmore.last⟩
      · refine (reads_block (n := n) h).bind fun body hbody => ?_
        exact agrees_pure ⟨by simp, by simpa using hbody.2⟩

theorem reads_ifParts : h.Gives c n ifParts fun parts =>
    G.MadeBranch n parts.1 ∧ G.MadeParts n parts.2.1 parts.2.2 := by
  refine reads_need.then ?_
  refine (reads_branch h).bind fun first hfirst => ?_
  refine Law.Ahead.based.agrees_budget_bind fun _ _ _ hr hfuel hfuel' => ?_
  refine (reads_elseParts (h.within hr) hfuel hfuel').bind fun more hmore => ?_
  exact agrees_pure ⟨hfirst, hmore⟩

theorem reads_simpleStatement : h.Gives c n simpleStatement (G.Made n) := by
  refine (reads_expression h).bind fun target htarget => ?_
  refine reads_kind_bind fun k _ => ?_
  split
  · exact reads_ahead (agrees_pure (.expr (G.value htarget)))
  · rename_i hk
    cases hassignable : isAssignable target with
    | false =>
      exact Agrees.bind (T := fun _ => G.Streams r true n) (P := fun _ => False) reads_refuse
        fun _ hfalse => hfalse.elim
    | true =>
      obtain ⟨hdepth, hpasses⟩ := depthAfter_assignOp (n := n) hk
      refine reads_advance_bind ?_
      rw [hdepth]
      refine (reads_below (h.value n)).bind fun value hvalue => ?_
      exact agrees_pure (.reassign hassignable htarget hvalue)

/-- The case is read by the law. -/
structure CaseRead (G : Law) (n : Nat) (c : Case) : Prop where
  test : ∀ e ∈ c.test, G.Expression n e
  body : G.MadeBody n c.body

theorem reads_caseBody {test} (htest : ∀ e ∈ test, G.Expression n e) (start : Nat) :
    h.Gives true n (fun x => do
      match ← kind with
      | .newline => return ⟨test, ← block x⟩
      | .keyword .ifWord | .keyword .switchWord =>
        let value ← x.value
        endStatement
        return ⟨test, [⟨.expr value, start⟩]⟩
      | _ =>
        let body ← simpleStatement x
        endStatement
        return ⟨test, [⟨body, start⟩]⟩) (CaseRead G n) := by
  have hvalue : h.Gives true n (fun x => do
      let value ← x.value
      endStatement
      return (⟨test, [⟨.expr value, start⟩]⟩ : Case)) (CaseRead G n) := by
    refine (reads_below (h.value n)).bind fun value hvalue => ?_
    exact reads_endStatement.then (agrees_pure ⟨htest, forall_mem_singleton.mpr (.expr hvalue)⟩)
  refine reads_kind_bind fun k _ => reads_ahead ?_
  split
  · exact (reads_block h).bind fun body hbody => agrees_pure ⟨htest, hbody.2⟩
  · exact hvalue
  · exact hvalue
  · refine (reads_simpleStatement h).bind fun body hbody => ?_
    exact reads_endStatement.then (agrees_pure ⟨htest, forall_mem_singleton.mpr hbody⟩)

theorem reads_switchCase : h.Gives c n switchCase (CaseRead G n) := by
  refine reads_line.bind fun start _ => ?_
  refine reads_eat_bind (reads_caseBody h (by simp) start) ?_
  refine (reads_expression h).bind fun test htest => ?_
  refine reads_need.then ?_
  exact reads_caseBody (n := n) h (by simpa using htest) start

theorem reads_switch : h.Gives c n switch (G.Value n) := by
  have hvalue {discriminant : Option Expr} (hd : ∀ e ∈ discriminant, G.Expression n e) :
      h.Gives true n (fun x => do
        let cases ← indented (switchCase x) .newlineAfterSwitch .switchCases
        return switchValue discriminant cases) (G.Value n) := by
    refine (reads_indented fun _ hr => reads_switchCase (h.within hr)).bind
      fun cases ⟨hline, hcases⟩ => ?_
    have htests c (hc : c ∈ cases) : ∀ e ∈ c.test, G.Expression n e := (hcases c hc).test
    have hbodies c (hc : c ∈ cases) := (hcases c hc).body.statement
    exact agrees_pure (G.switch hline hd htests hbodies)
  refine reads_need.then ?_
  refine (reads_at? _).bind fun found _ => ?_
  cases found with
  | true => exact hvalue (by simp)
  | false => exact (reads_option h).bind fun discriminant hd => hvalue hd

theorem reads_value : h.Gives c n value (G.Value n) := by
  refine reads_kind_bind fun k _ => reads_ahead ?_
  split
  · refine (reads_ifParts h).bind fun ⟨first, more, last⟩ ⟨hfirst, hmore⟩ => ?_
    have hbranches := forall_mem_cons.mpr ⟨hfirst, hmore.branches⟩
    exact agrees_pure (Law.value_ifValue hfirst.line ⟨hbranches, hmore.last⟩)
  · exact reads_switch h
  · exact (reads_expression h).mono fun _ => G.value

theorem reads_typedHead? :
    G.Keeps r c n (typedHead? x) (typedHead? y)
      fun a => ∀ head ∈ a, G.Token (.ident head.name) := by
  refine Parsing.agrees_attempt (T := fun _ => G.Streams r c n) ?_
  refine reads_qualifier?.bind fun qualifier _ => ?_
  refine reads_kind_bind fun k hk => reads_following_bind fun next _ => reads_weaken ?_
  split
  · exact reads_advance_bind (reads_ahead (agrees_some hk))
  · refine reads_ahead ((reads_type (h.type n)).bind fun type _ => ?_)
    refine reads_kind_bind fun k hk => reads_following_bind fun next _ => ?_
    split
    · exact reads_advance_bind (reads_ahead (agrees_some hk))
    · exact reads_ahead agrees_none

theorem reads_varDecl {mode type target} (htarget : ∀ name ∈ target.names, G.Token (.ident name)) :
    h.Gives c n (fun x => do return .varDecl mode type target (← initialValue x)) (G.Made n) := by
  have hinit : h.Gives c n initialValue (G.Value n) := by
    refine reads_need.then ?_
    refine (reads_value h).bind fun init hinit => ?_
    exact reads_endStatement.then (agrees_pure hinit)
  exact hinit.bind fun _ hinit => agrees_pure (.varDecl htarget hinit)

theorem reads_persistentDecl (mode : DeclMode) :
    h.Gives c n (persistentDecl · mode) (G.Made n) := by
  refine (reads_typedHead? h).bind fun head hhead => ?_
  cases head with
  | some head => exact reads_varDecl h (by simpa [DeclTarget.names] using hhead)
  | none =>
    exact reads_identifier.bind fun name hname =>
      reads_varDecl h (by simpa [DeclTarget.names] using hname)

theorem reads_declarationOrExpression : h.Gives c n declarationOrExpression (G.Made n) := by
  refine (reads_typedHead? h).bind fun head hhead => ?_
  cases head with
  | some head => exact reads_varDecl h (by simpa [DeclTarget.names] using hhead)
  | none =>
    refine reads_kind_bind fun k hk => reads_following_bind fun next _ => ?_
    split
    · exact reads_advance_bind (reads_ahead (reads_varDecl h (forall_mem_singleton.mpr hk)))
    · refine reads_ahead ((reads_simpleStatement h).bind fun stmt hstmt => ?_)
      exact reads_endStatement.then (agrees_pure hstmt)

theorem reads_tupleDecl : h.Gives c n tupleDecl (G.Made n) := by
  refine reads_need.then ?_
  refine (reads_commaItemsOne (n := n + 1) fun _ _ => reads_identifier).bind fun names hnames => ?_
  exact reads_need.then (reads_varDecl h hnames)

theorem reads_default? : h.Gives true n default? fun d => ∀ e ∈ d, G.Expression n e :=
  reads_eat_bind ((reads_expression h).bind fun _ he => agrees_some he) agrees_none

theorem reads_param : h.Gives c n param fun p =>
    G.Token (.ident p.name) ∧ ∀ e ∈ p.default, G.Expression n e := by
  have hrest {c} (type : Option TypeRef) : h.Gives c n (fun x => do
      let name ← identifier
      return (⟨name, type, ← default? x⟩ : Param)) fun p =>
      G.Token (.ident p.name) ∧ ∀ e ∈ p.default, G.Expression n e := by
    refine reads_identifier.bind fun name hname => ?_
    exact (reads_default? h).bind fun value hvalue => agrees_pure ⟨hname, hvalue⟩
  refine reads_qualifier?.bind fun qualifier _ => ?_
  refine reads_kind_bind fun k _ => reads_following_bind fun next _ => reads_ahead ?_
  split
  · split
    · exact (reads_type (h.type n)).bind fun type _ => hrest _
    · exact hrest none
  · exact hrest none

theorem reads_functionDecl (kind : FunctionKind) (exported : Bool) :
    h.Gives c n (functionDecl · kind exported) (G.Made n) := by
  refine reads_line.bind fun start _ => ?_
  refine reads_identifier.bind fun name hname => ?_
  refine reads_need.then ?_
  refine (reads_commaItems fun _ hr => reads_param (h.within hr)).bind fun params hparams => ?_
  refine reads_need.then (reads_need.then ?_)
  refine (reads_at? _).bind fun found _ => ?_
  cases found with
  | true =>
    refine (reads_block h).bind fun body hbody => ?_
    have hresulting := Law.resulting_functionBody hbody.2
    exact agrees_pure (.other rfl (G.function hname hparams hresulting))
  | false =>
    refine (reads_value h).bind fun result hresult => reads_endStatement.then ?_
    have hbody : G.MadeBody n [⟨.expr result, start⟩] := forall_mem_singleton.mpr (.expr hresult)
    have hresulting := Law.resulting_functionBody hbody
    exact agrees_pure (.other rfl (G.function hname hparams hresulting))

theorem reads_methodDecl (exported : Bool) : h.Gives c n (methodDecl · exported) (G.Made n) :=
  reads_need.then (reads_functionDecl h _ _)

theorem reads_field : h.Gives c n field fun f =>
    G.Token (.ident f.name) ∧ ∀ e ∈ f.default, G.Expression n e := by
  refine reads_qualifier?.bind fun _ _ => (reads_type (h.type n)).bind fun _ _ => ?_
  refine reads_identifier.bind fun name hname => ?_
  refine (reads_default? h).bind fun value hvalue => ?_
  exact reads_endStatement.then (agrees_pure ⟨hname, hvalue⟩)

theorem reads_typeDecl (exported : Bool) : h.Gives c n (typeDecl · exported) (G.Made n) := by
  refine reads_need.then ?_
  refine reads_identifier.bind fun name hname => ?_
  refine (reads_indented fun _ hr => reads_field (h.within hr)).bind fun fields hfields => ?_
  exact agrees_pure (.other rfl (G.typeDecl hname hfields.2))

theorem reads_exportDecl : h.Gives c n exportDecl (G.Made n) := by
  refine reads_need.then (reads_kind_bind fun k _ => reads_ahead ?_)
  split
  · exact reads_typeDecl h true
  · exact reads_methodDecl h true
  · refine agrees_get_bind fun s t hst => ?_
    rw [isFunctionHead_eq (sameKinds hst)]
    split
    · exact reads_functionDecl h .function true
    · exact reads_refuse

theorem reads_ifStmt : h.Gives c n ifStmt (G.Made n) := by
  refine reads_line.bind fun start _ => ?_
  refine (reads_ifParts h).bind fun ⟨first, more, last⟩ ⟨hfirst, hmore⟩ => ?_
  refine agrees_pure (Law.made_nestedIf hfirst hmore.branches ?_)
  cases last with
  | none => exact fun _ hs => nomatch hs
  | some body => exact hmore.last body rfl

theorem reads_forInRest {target} (htarget : ∀ name ∈ target.names, G.Token (.ident name)) :
    h.Gives c n (forInRest · target) (G.Made n) := by
  refine (reads_expression h).bind fun iterable hiterable => ?_
  refine (reads_block h).bind fun body hbody => ?_
  exact agrees_pure (.other rfl (G.forIn htarget hiterable hbody.2.statement))

theorem reads_forStmt : h.Gives c n forStmt (G.Made n) := by
  refine reads_need.then (reads_eat_bind ?_ ?_)
  · refine (reads_identifier (n := n + 1)).bind fun index hindex => ?_
    refine reads_need.then (reads_identifier.bind fun value hvalue => ?_)
    have htarget : ∀ name ∈ (ForTarget.pair index value).names, G.Token (.ident name) := by
      simp [ForTarget.names, hindex, hvalue]
    exact reads_need.then (reads_need.then (reads_forInRest h htarget))
  · refine reads_identifier.bind fun counter hcounter => ?_
    refine reads_eat_bind (reads_forInRest h (by simpa [ForTarget.names] using hcounter)) ?_
    refine reads_need.then ((reads_expression h).bind fun start hstart => ?_)
    refine reads_need.then ((reads_expression h).bind fun stop hstop => ?_)
    have hrest {step : Option Expr} (hstep : ∀ e ∈ step, G.Expression n e) :
        h.Gives true n (fun x => do return .forRange counter start stop step (← block x))
          (G.Made n) := by
      refine (reads_block h).bind fun body hbody => ?_
      have hstmts := hbody.2.statement
      exact agrees_pure (.other rfl (G.forRange hcounter hstart hstop hstep hstmts))
    exact reads_eat_bind ((reads_option h).bind fun step hstep => hrest hstep) (hrest (by simp))

theorem reads_whileStmt : h.Gives c n whileStmt (G.Made n) := by
  refine reads_need.then ?_
  refine (reads_expression h).bind fun test htest => ?_
  refine (reads_block h).bind fun body hbody => ?_
  exact agrees_pure (.other rfl (G.whileLoop htest hbody.2.statement))

theorem reads_statementKind : h.Gives c n statementKind (G.Made n) := by
  refine reads_kind_bind fun k _ => ?_
  split
  · exact reads_ahead (reads_ifStmt h)
  · exact reads_ahead (reads_forStmt h)
  · exact reads_ahead (reads_whileStmt h)
  · exact reads_ahead ((reads_switch h).bind fun _ he => agrees_pure (.expr he))
  · exact reads_advance_bind (reads_persistentDecl h _)
  · exact reads_advance_bind (reads_persistentDecl h _)
  · exact reads_ahead (reads_typeDecl h false)
  · exact reads_ahead (reads_methodDecl h false)
  · exact reads_ahead (reads_exportDecl h)
  · exact reads_refuse
  · exact reads_advance_bind (reads_endStatement.then (agrees_pure (.other rfl G.breakLoop)))
  · exact reads_advance_bind (reads_endStatement.then (agrees_pure (.other rfl G.continueLoop)))
  · refine agrees_get_bind fun s t hst => ?_
    rw [← s.tail_rest, ← t.tail_rest, isTupleHead_eq (sameKinds hst.tail)]
    split
    · exact reads_ahead (reads_tupleDecl h)
    · exact reads_ahead (reads_declarationOrExpression h)
  · refine agrees_get_bind fun s t hst => ?_
    rw [isFunctionHead_eq (sameKinds hst)]
    split
    · exact reads_ahead (reads_functionDecl h .function false)
    · exact reads_ahead (reads_declarationOrExpression h)
  · exact reads_ahead (reads_declarationOrExpression h)

theorem reads_statement : h.Gives c n statement fun s => G.Made n s.kind := by
  refine reads_line.bind fun line _ => ?_
  exact (reads_statementKind h).bind fun kind hkind => agrees_pure hkind

omit h in
/-- Where no token is left that could be read first, no nested parser is called. -/
theorem reads_nil : x.Reads G [] y := by
  have hnone {r' : List Token} (hr : Left [] true r') : False := Nat.not_lt_zero _ (hr.2 rfl)
  exact ⟨fun _ _ hr => (hnone hr).elim, fun _ _ hr => (hnone hr).elim,
    fun _ _ hr => (hnone hr).elim, fun _ _ hr => (hnone hr).elim, fun _ _ hr => (hnone hr).elim⟩

omit h in
/-- As many levels of nesting as there are tokens suffice: the parsers below them are never
called. -/
theorem reads_nestedOver {depth depth' : Nat} (hdepth : r.length ≤ depth)
    (hdepth' : r.length ≤ depth') : (nestedOver x depth).Reads G r (nestedOver y depth') := by
  induction depth generalizing r depth' with
  | zero =>
    obtain rfl := List.eq_nil_of_length_eq_zero (Nat.le_zero.mp hdepth)
    exact reads_nil
  | succ depth ih =>
    cases depth' with
    | zero =>
      obtain rfl := List.eq_nil_of_length_eq_zero (Nat.le_zero.mp hdepth')
      exact reads_nil
    | succ depth' =>
      -- a nested phrase begins behind a token, so one level less suffices for it
      have hn r' (hr : Left r true r') : (nestedOver x depth).Reads G r' (nestedOver y depth') := by
        have := hr.2 rfl
        exact ih (by omega) (by omega)
      exact ⟨fun _ r' hr => reads_type ((hn r' hr).type _), fun _ r' hr => reads_unary (hn r' hr),
        fun _ r' hr => reads_expression (hn r' hr), fun _ r' hr => reads_value (hn r' hr),
        fun _ r' hr => reads_statement (hn r' hr)⟩

omit h in
theorem reads_nested {depth : Nat} (hdepth : r.length ≤ depth) :
    (nested depth).Reads G r (nested depth) :=
  nested_eq depth ▸ reads_nestedOver hdepth hdepth

theorem reads_program :
    G.Keeps r c n (program x) (program y) fun body => ∀ s ∈ body, G.Statement n s.kind := by
  refine reads_repeated fun _ hr => reads_skipNewlines.then ?_
  refine (reads_at? _).bind fun found _ => ?_
  cases found with
  | true => exact agrees_none
  | false => exact (reads_statement (h.within hr)).bind fun _ hs => agrees_some hs.statement

end Grammar

/-! ## Programs -/

/-- Tokens that no parser tells apart are read as the same program by the law, or refused at related
tokens. -/
theorem Program.outcomes_ofTokens (G : Law) {ts us} (h : List.Forall₂ G.Same ts us)
    (hending : G.Same (Stream.ofTokens ts).ending (Stream.ofTokens us).ending)
    (htokens : ∀ t ∈ ts, G.Token t.kind) (hlines : LinesAt G.Line 0 ts) :
    (∃ program, ofTokens ts = .ok program ∧ ofTokens us = .ok program ∧
        ∀ s ∈ program.body, G.Statement 0 s.kind) ∨
      ∃ e f, ofTokens ts = .error e ∧ ofTokens us = .error f ∧ G.Errors e f := by
  have hended : (Stream.ofTokens ts).ending.kind = .eof := by
    unfold Stream.ofTokens
    split <;> rfl
  have hstreams : G.Streams ts false 0 (.ofTokens ts) (.ofTokens us) :=
    ⟨⟨us, 0, h, (List.append_nil us).symm⟩, rfl, hending, hended, htokens, hlines, .refl, trivial⟩
  have hread := Grammar.reads_program (c := false) (n := 0)
    (Grammar.reads_nested (G := G) (Nat.le_refl ts.length))
  unfold ofTokens
  rw [← h.length_eq]
  rcases hread.outcomes hstreams with ⟨body, s, t, hts, hus, hbody⟩ | ⟨e, f, hts, hus, he⟩
  · exact .inl
      ⟨⟨body⟩, by simp only [StateT.run, hts]; rfl, by simp only [StateT.run, hus]; rfl, hbody⟩
  · exact .inr ⟨e, f, by simp only [StateT.run, hts]; rfl, by simp only [StateT.run, hus]; rfl, he⟩

/-- Tokens are told apart by all that they are. -/
def View.exact : View := ⟨Eq, fun h => h ▸ rfl, fun h => h ▸ rfl⟩

/-- A program is read by every law of its tokens. -/
theorem Program.statement_of_ofTokens (G : Law) (hview : G.toView = .exact) {tokens program}
    (h : ofTokens tokens = .ok program) (htokens : ∀ t ∈ tokens, G.Token t.kind)
    (hlines : LinesAt G.Line 0 tokens) : ∀ s ∈ program.body, G.Statement 0 s.kind := by
  have hsame (t : Token) : G.Same t t := by
    rw [hview]
    rfl
  have htwice : List.Forall₂ G.Same tokens tokens := List.forall₂_same.mpr fun t _ => hsame t
  rcases outcomes_ofTokens G htwice (hsame _) htokens hlines with
    ⟨read, hread, -, hstatement⟩ | ⟨e, -, herror, -⟩
  · rw [h] at hread
    cases hread
    exact hstatement
  · rw [h] at herror
    cases herror

end IndicatorCompiler.Pine
