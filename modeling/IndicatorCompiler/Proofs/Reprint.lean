import IndicatorCompiler.Proofs.Reread
import IndicatorCompiler.Proofs.WrittenStatements

/-!
# Reading printed scripts

The printed text of a well-formed, reprintable script is read as `reread` says.  The proof follows
the printer: one induction over all trees, each case an application of the lemma for the way in
which its text is put together.
-/

namespace IndicatorCompiler.Script

open Text (Rendered)
open Bool (and_eq_true)
open String (append_assoc toList_append append_empty)
open Strength (assign call conditional primary sequence unary)

/-! ## How texts end and begin -/

/-- What may follow the text of an expression. -/
def Expr.after : Expr → Char → Bool
  | .ident _ | .lit (.str _) | .lit (.bool _) | .lit .null | .array _ | .object _
  | .call _ _ | .new _ _ | .member _ _ | .index _ _ | .function ⟨_, _, _, false⟩ => endsName
  | _ => endsNumber

theorem terminates_after (e : Expr) : Terminates e.after := by
  unfold Expr.after
  split <;> first
    | exact terminates_endsName
    | exact terminates_endsNumber

variable {e : Expr} {key : String} {level : Nat}

/-- Behind everything that can be accessed as it is, a point may follow, unless it is a number. -/
theorem after_eq_endsName (h : call ≤ e.strength) (hnumber : e.isNumber = false) :
    e.after = endsName := by
  have weak {n : Nat} (hn : n < 18) (h : 18 ≤ n) : e.after = endsName :=
    absurd h (Nat.not_le_of_lt hn)
  cases e with
  | lit value =>
    cases value with
    | num value => cases hnumber
    | _ => rfl
  | function f =>
    obtain ⟨name, params, body, arrow⟩ := f
    cases arrow with
    | true => exact weak (show 2 < 18 by decide) h
    | false => rfl
  | update op prefixed arg =>
    cases prefixed with
    | true => exact weak (show 15 < 18 by decide) h
    | false => exact weak (show 16 < 18 by decide) h
  | binary op left right =>
    have hprecedence := precedence_bounds op
    exact weak (show op.precedence < 18 by omega) h
  | unary _ _ => exact weak (show 15 < 18 by decide) h
  | assign _ _ _ => exact weak (show 2 < 18 by decide) h
  | conditional _ _ _ => exact weak (show 3 < 18 by decide) h
  | sequence _ => exact weak (show 1 < 18 by decide) h
  | spread _ => exact weak (show 2 < 18 by decide) h
  | _ => rfl

/-- Nothing but accesses and calls has accesses and calls behind it. -/
theorem suffixes_reread (h : e.strength < call ∨ e.isNumber = true) :
    e.reread.suffixes = [] := by
  have hcall : ¬ (call < call ∨ false = true) := by decide
  cases e with
  | lit value =>
    rw [Expr.reread]
    unfold Literal.reread
    split <;> rfl
  | call _ _ | new _ _ | member _ _ | index _ _ => exact absurd h hcall
  | _ => rfl

theorem isNew_root_reread (h : e.root.isNew = false) : e.reread.root.isNew = false := by
  induction e using Expr.suffixes.induct with
  | case1 base name ih | case2 base i ih | case3 callee args ih => exact ih h
  | case4 e hmember hindex hcall =>
    cases e with
    | member base name => exact absurd rfl (hmember base name)
    | index base i => exact absurd rfl (hindex base i)
    | call callee args => exact absurd rfl (hcall callee args)
    | new callee args => cases h
    | lit value =>
      rw [Expr.reread]
      unfold Literal.reread
      split <;> rfl
    | _ => rfl

theorem isAssignable_reread {op} (h : Grammar.isAssignable op e = true) :
    Grammar.isAssignable op e.reread = true := by
  cases e with
  | ident _ | member _ _ | index _ _ | array _ | object _ => exact h
  | _ => cases h

section

variable {e : Expr} {level : Nat}

theorem Prints.calleeBase (h : Prints e.after (e.rendered level) e.reread) :
    WrittenBase endsNumber ((e.rendered level).within call) e.reread := by
  refine (h.base (terminates_after e) fun hstrength => suffixes_reread (.inl ?_)).mono
    (terminates_after e)
  rwa [strength_rendered] at hstrength

/-- What an access applies to; a number stands in parentheses. -/
theorem Prints.accessBase (h : Prints e.after (e.rendered level) e.reread) :
    WrittenBase endsName (memberBase e (e.rendered level)) e.reread := by
  rw [memberBase_eq]
  split
  · rename_i hnumber
    exact h.enclosedBase (terminates_after e) (suffixes_reread (.inr hnumber)) endsName
  · rename_i hnumber
    by_cases hstrength : e.strength < call
    · rw [Rendered.within, strength_rendered, if_pos hstrength]
      exact h.enclosedBase (terminates_after e) (suffixes_reread (.inl hstrength)) endsName
    · have hafter := after_eq_endsName (Nat.le_of_not_lt hstrength) (by simpa using hnumber)
      have hbase := h.base (terminates_after e) fun hlt => by
        rw [strength_rendered] at hlt
        exact absurd hlt hstrength
      exact hbase.mono fun c hc => by rw [hafter]; exact hc

end

/-! ## Texts that open with a brace -/

section

variable {text text' : String} {c d : Char}

theorem beginsWith_of_head? (hhead : text.toList.head? = some d) (hc : d ≠ c) :
    Text.beginsWith c text = false := by
  rw [Text.beginsWith_eq, hhead]
  simpa using hc

theorem beginsWith_append (h : Text.beginsWith c text = false)
    (hhead : text'.toList.head? = some d) (hc : d ≠ c) :
    Text.beginsWith c (text ++ text') = false := by
  rw [Text.beginsWith_eq] at h ⊢
  rw [toList_append]
  cases htext : text.toList with
  | nil => simpa [hhead] using hc
  | cons first rest => simpa [htext] using h

theorem beginsWith_within {n} (h : (decide (n ≤ e.strength) && e.opensBrace) = false)
    (htext : e.opensBrace = false → Text.beginsWith '\x7b' (e.rendered level).text = false) :
    Text.beginsWith '\x7b' ((e.rendered level).within n) = false := by
  rw [Rendered.within, strength_rendered]
  split
  · exact beginsWith_of_head? (head?_parens _) (by decide)
  · rename_i hstrength
    rw [decide_eq_true (Nat.le_of_not_lt hstrength), Bool.true_and] at h
    exact htext h

theorem isName_head? {name} (h : isName name = true) :
    ∃ c, name.toList.head? = some c ∧ startsName c = true := by
  obtain ⟨c, rest, hname, hc, -⟩ := isName_iff.mp h
  exact ⟨c, by rw [hname]; rfl, hc⟩

theorem Literal.beginsWith_brace {value : Literal} (h : value.WellFormed) :
    Text.beginsWith '\x7b' value.rendered.text = false := by
  cases value with
  | num value =>
    rcases h with ⟨x, rfl⟩ | rfl
    · obtain ⟨whole, fraction, htext, hne, hwhole, -⟩ := x.positional_spec
      obtain ⟨c, whole, rfl⟩ := List.exists_cons_of_ne_nil hne
      show Text.beginsWith '\x7b' x.digits.positional = false
      refine beginsWith_of_head? (by rw [htext]; rfl) ?_
      rintro rfl
      exact absurd (hwhole _ List.mem_cons_self) (by decide)
    · decide
  | str value =>
    exact beginsWith_of_head? (d := '"') (by simp [Literal.rendered, Text.quote]) (by decide)
  | bool value => cases value <;> decide
  | null => decide

/-- Only what opens with an object opens with a brace. -/
theorem not_opensBrace : (e : Expr) → {asElement : Bool} → e.WellFormed asElement →
    e.opensBrace = false → (level : Nat) → Text.beginsWith '\x7b' (e.rendered level).text = false
  | .ident name, _, h, _, level => by
    obtain ⟨c, hhead, hc⟩ := isName_head? h.1
    show Text.beginsWith '\x7b' name = false
    refine beginsWith_of_head? hhead ?_
    rintro rfl
    exact absurd hc (by decide)
  | .lit value, _, h, _, _ => value.beginsWith_brace h
  | .array items, _, _, _, level =>
    beginsWith_of_head? (d := '[') (by simp only [Expr.rendered, toList_append]; rfl) (by decide)
  | .function ⟨name, params, body, true⟩, _, _, _, level =>
    beginsWith_of_head? (d := '(')
      (by simp only [Expr.rendered, Function.text, functionHead, if_true, toList_append]; rfl)
      (by decide)
  | .function ⟨name, params, body, false⟩, _, _, _, level =>
    beginsWith_of_head? (d := 'f')
      (by simp only [Expr.rendered, Function.text, functionHead, Bool.false_eq_true, if_false,
            toList_append]; rfl)
      (by decide)
  | .unary op arg, _, _, _, level | .update op true arg, _, _, _, level => by
    obtain ⟨c, rest, hrest, hc⟩ : ∃ c rest, op.text.toList = c :: rest ∧ c ≠ '\x7b' := by
      cases op <;> exact ⟨_, _, rfl, by decide⟩
    refine beginsWith_of_head? (d := c) ?_ hc
    simp only [Expr.rendered, unaryText]
    split_ifs <;> simp [hrest]
  | .update op false arg, _, h, ho, level => by
    obtain ⟨c, hhead, hc⟩ : ∃ c, op.text.toList.head? = some c ∧ c ≠ '\x7b' := by
      cases op <;> exact ⟨_, rfl, by decide⟩
    exact beginsWith_append (beginsWith_within ho fun ho => not_opensBrace arg h ho level) hhead hc
  | .binary _ first _, _, h, ho, level | .conditional first _ _, _, h, ho, level => by
    simp only [Expr.rendered, append_assoc]
    exact beginsWith_append (beginsWith_within ho fun ho => not_opensBrace first h.1 ho level)
      (d := ' ') (by simp) (by decide)
  | .assign op target value, _, h, ho, level => by
    simp only [Expr.rendered, append_assoc]
    exact beginsWith_append (beginsWith_within ho fun ho => not_opensBrace target h.2.1 ho level)
      (d := ' ') (by simp) (by decide)
  | .call callee args, _, h, ho, level => by
    simp only [Expr.rendered, append_assoc]
    exact beginsWith_append (beginsWith_within ho fun ho => not_opensBrace callee h.1 ho level)
      (d := '(') (by simp) (by decide)
  | .new callee args, _, _, _, level =>
    beginsWith_of_head? (d := 'n') (by simp only [Expr.rendered, toList_append]; rfl) (by decide)
  | .member base name, _, h, ho, level => by
    simp only [Expr.rendered, memberBase_eq, append_assoc]
    refine beginsWith_append ?_ (d := '.') (by simp) (by decide)
    split
    · exact beginsWith_of_head? (head?_parens _) (by decide)
    · exact beginsWith_within ho fun ho => not_opensBrace base h.1 ho level
  | .index base i, _, h, ho, level => by
    simp only [Expr.rendered, memberBase_eq, append_assoc]
    refine beginsWith_append ?_ (d := '[') (by simp) (by decide)
    split
    · exact beginsWith_of_head? (head?_parens _) (by decide)
    · exact beginsWith_within ho fun ho => not_opensBrace base h.1 ho level
  | .sequence [], _, _, _, _ => rfl
  | .sequence [first], _, h, ho, level =>
    beginsWith_within ho fun ho => not_opensBrace first h.2.1 ho level
  | .sequence (first :: second :: rest), _, h, ho, level => by
    have hfirst := beginsWith_within ho fun ho => not_opensBrace first h.2.1 ho level
    simp only [Expr.rendered, exprTexts, commas, Text.joinWith, append_assoc]
    exact beginsWith_append hfirst (d := ',') (by simp) (by decide)
  | .spread arg, _, _, _, level =>
    beginsWith_of_head? (d := '.') (by simp only [Expr.rendered, toList_append]; rfl) (by decide)

end

/-! ## Patterns of loops that declare nothing

Such a pattern is read as an expression first. -/

mutual
/-- The expression that is read as the pattern. -/
def Pattern.toExpr : Pattern → Expr
  | .ident name => .ident name
  | .array items => .array (patternItemsToExprs items)
  | .object properties => .object (patternPropertiesToExprs properties)
  | .withDefault target value => .assign .assign target.toExpr value
  | .rest target => .spread target.toExpr

/-- The elements of an array pattern, of which none is a hole. -/
def patternItemsToExprs : List (Option Pattern) → List Expr
  | [] => []
  | none :: rest => patternItemsToExprs rest
  | some pattern :: rest => pattern.toExpr :: patternItemsToExprs rest

/-- The properties of an object pattern; keys that are no words are numbers. -/
def patternPropertiesToExprs : List PatternProperty → List Property
  | [] => []
  | ⟨key, value⟩ :: rest =>
    ⟨if isName key then .name key else .str key, value.toExpr, value.standsFor key⟩ ::
      patternPropertiesToExprs rest
end

theorem patternProperties?_cons {k value shorthand rest p properties}
    (hk : k = .name key ∨ k = .str key) (hvalue : value.toPattern? = some p)
    (hrest : patternProperties? rest = some properties) :
    patternProperties? (⟨k, value, shorthand⟩ :: rest) = some (⟨key, p⟩ :: properties) := by
  rcases hk with rfl | rfl <;> simp [patternProperties?, hvalue, hrest]

mutual
/-- A pattern without holes and rest properties is read from its expression. -/
theorem toPattern?_toExpr : (p : Pattern) → {asElement : Bool} → {key : Option String} →
    p.WellFormed false asElement key → p.reread.toExpr.toPattern? = some p.reread
  | .ident _, _, _, _ => rfl
  | .array items, _, _, h => by
    simp only [Pattern.reread, Pattern.toExpr, Expr.toPattern?, patternItems?_toExprs items h,
      Option.map_some]
  | .object properties, _, _, h => by
    simp only [Pattern.reread, Pattern.toExpr, Expr.toPattern?,
      patternProperties?_toExprs properties h, Option.map_some]
  | .withDefault target value, _, _, h => by
    simp only [Pattern.reread, Pattern.toExpr, Expr.toPattern?, toPattern?_toExpr target h.2.2.1,
      Option.map_some]
  | .rest target, _, _, h => by
    simp only [Pattern.reread, Pattern.toExpr, Expr.toPattern?, toPattern?_toExpr target h.2,
      Option.map_some]

theorem patternItems?_toExprs : (items : List (Option Pattern)) →
    patternItemsWellFormed false items →
    patternItems? (patternItemsToExprs (rereadPatternItems items)) = some (rereadPatternItems items)
  | [], _ => rfl
  | none :: _, h => nomatch h.1
  | some p :: rest, h => by
    simp [rereadPatternItems, patternItemsToExprs, patternItems?, toPattern?_toExpr p h.1,
      patternItems?_toExprs rest h.2]

theorem patternProperties?_toExprs : (properties : List PatternProperty) →
    patternPropertiesWellFormed false properties →
    patternProperties? (patternPropertiesToExprs (rereadPatternProperties properties)) =
      some (rereadPatternProperties properties)
  | [], _ => rfl
  | ⟨key, value⟩ :: rest, h => by
    refine patternProperties?_cons ?_ (toPattern?_toExpr value h.2.1)
      (patternProperties?_toExprs rest h.2.2)
    split
    · exact .inl rfl
    · exact .inr rfl
end

/-- A key that stands bare is read as itself. -/
theorem writtenKey_of_standsBare (h : standsBare key = true) :
    WrittenKey key (if isName key then .name key else .str key) := by
  split
  · rename_i hname
    exact writtenKey_name hname
  · rename_i hname
    unfold standsBare at h
    split at h
    · rename_i x _
      have hkey : x.digits.positional = key := by simpa [hname] using h
      subst hkey
      exact ⟨_, lexes_magnitude x, readsKey_num (.finite false x)⟩
    · simp [hname] at h

/-! ## Pieces of the induction -/

/-- The text is read as a target, or as an element of a pattern. -/
def WrittenPattern : Bool → String → Pattern → Prop
  | true => WrittenElement
  | false => WrittenTarget

theorem WrittenTarget.pattern {text p} (h : WrittenTarget text p) (asElement : Bool) :
    WrittenPattern asElement text p := by
  cases asElement with
  | true => exact h.element
  | false => exact h

/-- The text of a statement is read as it, and that of a block as its statements in braces. -/
def WrittenAs (text : String) : Stmt → Prop
  | .block body => WrittenBlock text body
  | stmt => WrittenStmt text stmt

theorem WrittenAs.stmt {text s} (h : WrittenAs text s) : WrittenStmt text s := by
  cases s with
  | block body => exact WrittenBlock.blockStmt h
  | _ => exact h

theorem writtenBlock_body {body} (h : ∀ n, WrittenAs (body.text n) body.reread) (level : Nat) :
    WrittenBlock (bodyText level body (fun n => body.text n)) body.reread.bodyStmts := by
  have hline {s : Stmt} (hs : WrittenStmt (body.text (level + 1)) s) :
      WrittenBlock (braced level (lineText (level + 1) (body.text (level + 1)))) [s] := by
    have hlines := (hs.line (level + 1) writtenLines_nil).braced level
    rwa [append_empty] at hlines
  cases body with
  | block body => exact h level
  | empty => exact writtenLines_nil.braced level
  | _ => exact hline (h (level + 1)).stmt

theorem writtenStmt_else {s} (h : ∀ n, WrittenAs (s.text n) s.reread) (level : Nat) :
    WrittenStmt (elseText level s (fun n => s.text n)) s.reread.asElse := by
  cases s with
  | ifElse test consequent alternate => exact (h level).stmt
  | _ => exact (writtenBlock_body h level).blockStmt

/-- Arrays and objects need no key. -/
theorem Pattern.WellFormed.of_key {p : Pattern} {declared asElement}
    (h : p.WellFormed declared asElement (some key)) (hkey : p.standsFor key = false) :
    p.WellFormed declared asElement none := by
  cases p with
  | ident name =>
    refine ⟨h.1, .inr (h.2.resolve_left fun hname => ?_)⟩
    simp [Pattern.standsFor, Option.some.inj hname] at hkey
  | withDefault target value =>
    refine ⟨h.1, h.2.1, ?_, h.2.2.2⟩
    cases target with
    | ident name =>
      refine ⟨h.2.2.1.1, .inr (h.2.2.1.2.resolve_left fun hname => ?_)⟩
      simp [Pattern.standsFor, Option.some.inj hname] at hkey
    | withDefault _ _ => cases h.2.1
    | _ => exact h.2.2.1
  | _ => exact h

section

variable {key : String} {level : Nat}

/-- A name behind its key, or alone if it is the key. -/
theorem writtenItem_ident {name} (hkey : isName key = true)
    (h : (Pattern.ident name).WellFormed true true (some key)) :
    WrittenItem .rBrace Grammar.patternProperty
      (if (Pattern.ident name).isRest || (Pattern.ident name).standsFor key
        then (Pattern.ident name).text level else key ++ ": " ++ (Pattern.ident name).text level)
      ⟨key, .ident name⟩ := by
  by_cases hname : name = key
  · subst hname
    simpa [Pattern.isRest, Pattern.standsFor, Pattern.text] using writtenItem_shortTarget hkey
  · have htarget := writtenTarget_ident h.1 (h.2.resolve_left fun h => hname (Option.some.inj h))
    simpa [Pattern.isRest, Pattern.standsFor, Pattern.text, hname] using htarget.property hkey

/-- A target with a default behind its key, or alone if it is the key. -/
theorem writtenItem_default {target : Pattern} {value} (hkey : isName key = true)
    (h : (Pattern.withDefault target value).WellFormed true true (some key))
    (htarget : target.WellFormed true false none → WrittenTarget (target.text level) target.reread)
    (hvalue : Written 2 ((value.rendered level).within assign) value.reread) :
    WrittenItem .rBrace Grammar.patternProperty
      (if (Pattern.withDefault target value).isRest ||
        (Pattern.withDefault target value).standsFor key
        then (Pattern.withDefault target value).text level
        else key ++ ": " ++ (Pattern.withDefault target value).text level)
      ⟨key, (Pattern.withDefault target value).reread⟩ := by
  by_cases hstands : (Pattern.withDefault target value).standsFor key = true
  · cases target with
    | ident name =>
      obtain rfl : name = key := by simpa [Pattern.standsFor] using hstands
      simpa [hstands, Pattern.text, Pattern.reread] using hvalue.shortTargetWithDefault hkey
    | _ => cases hstands
  · have hstands : (Pattern.withDefault target value).standsFor key = false := by
      simpa using hstands
    have hwritten := htarget (h.of_key hstands).2.2.1
    simpa [hstands, Pattern.isRest, Pattern.text, Pattern.reread] using
      hwritten.propertyWithDefault hkey hvalue

end

/-- Elements are read back one by one unless there is a hole at the end. -/
theorem rereadPatternItems_eq : {items : List (Option Pattern)} → items.getLast? ≠ some none →
    rereadPatternItems items = items.map (Option.map Pattern.reread)
  | [], _ => rfl
  | [none], h => absurd rfl h
  | none :: item :: rest, h => by
    rw [rereadPatternItems, rereadPatternItems_eq (getLast?_tail h)]
    · rfl
    · simp
  | some p :: rest, h => by
    rw [rereadPatternItems, rereadPatternItems_eq (getLast?_tail h)]
    rfl

theorem getLast?_reread {items} (h : items.getLast? ≠ some none) :
    (rereadPatternItems items).getLast? ≠ some none := by
  rw [rereadPatternItems_eq h, List.getLast?_map]
  intro hnone
  obtain ⟨last, hlast, hlast'⟩ := Option.map_eq_some_iff.mp hnone
  rw [Option.map_eq_none_iff.mp hlast'] at hlast
  exact h hlast

theorem Prints.mono {after after' : Char → Bool} {r} (h : Prints after r e)
    (hafter : ∀ c, after' c = true → after c = true) : Prints after' r e := by
  obtain ⟨ks, hlexes, hrest⟩ := h
  exact ⟨ks, hlexes.mono hafter, hrest⟩

theorem rendered_magnitude (x : Number.Magnitude) :
    (Literal.num (.finite false x)).rendered = ⟨x.digits.positional, primary⟩ := by
  have hless : (Number.Double.finite false x).less .zero = false := by
    simp only [Number.Double.zero, Number.Double.less, Number.Double.signedUnits,
      Number.Magnitude.units, Number.Magnitude.zero, Bool.false_eq_true, if_false]
    simp
  rw [Literal.rendered, hless]
  rfl

theorem Literal.prints {value} (h : value.WellFormed) :
    Prints (Expr.lit value).after value.rendered value.reread := by
  cases value with
  | num value =>
    rcases h with ⟨x, rfl⟩ | rfl
    · rw [rendered_magnitude]
      exact prints_magnitude x
    · exact (prints_ident (show isName "Infinity" = true from rfl) (by decide)).mono
        terminates_endsName
  | str value => exact prints_str value
  | bool value => exact prints_bool value
  | null => exact prints_null

theorem Prints.written (h : Prints e.after (e.rendered level) e.reread)
    (n : Nat) : Written n ((e.rendered level).within n) e.reread :=
  h.within (terminates_after e) n

/-- A pattern with a default is read as an assignment. -/
theorem writtenDefault {target value text}
    (h : (Pattern.withDefault target value).WellFormed false false none)
    (htarget : Written (if target.hasDefault then assign else Strength.target)
      (target.text level) target.reread.toExpr)
    (hvalue : Written 2 text value.reread) :
    Written assign (target.text level ++ " = " ++ text)
      (.assign .assign target.reread.toExpr value.reread) := by
  rw [h.2.1, if_neg Bool.false_ne_true] at htarget
  have hassignable : Grammar.isAssignable .assign target.reread.toExpr = true := by
    cases target with
    | ident _ | array _ | object _ => rfl
    | withDefault _ _ => cases h.2.1
    | rest _ => cases h.2.2.1.1
  have hprints :=
    (htarget.assign .assign hassignable hvalue).within terminates_endsNumber assign
  rw [show " = " = " " ++ AssignOp.text .assign ++ " " from rfl]
  simpa only [Rendered.within, Nat.lt_irrefl, if_false, append_assoc] using hprints

theorem le_strength (hasDefault : Bool) : 2 ≤ if hasDefault then assign
    else Strength.target := by
  cases hasDefault <;> decide

/-- A property of such a pattern is read as a property of an object. -/
theorem writtenItem_assigned {value : Pattern}
    (hkey : standsBare key = true) (hdefault : (value.hasDefault && value.standsFor key) = false)
    (h : value.WellFormed false false (some key))
    (hvalue : value.WellFormed false false none →
      Written (if value.hasDefault then assign else Strength.target) (value.text level)
        value.reread.toExpr) :
    WrittenItem .rBrace Grammar.property (if value.isRest || value.standsFor key then
        value.text level else key ++ ": " ++ value.text level)
      ⟨if isName key then .name key else .str key, value.reread.toExpr,
        value.reread.standsFor key⟩ := by
  have hrest : value.isRest = false := by
    cases value with
    | rest _ => cases h.1
    | _ => rfl
  rw [standsFor_reread, hrest, Bool.false_or]
  cases hstands : value.standsFor key with
  | true =>
    rw [hstands, Bool.and_true] at hdefault
    cases value with
    | ident name =>
      obtain rfl : name = key := by simpa [Pattern.standsFor] using hstands
      rw [if_pos rfl, if_pos h.1]
      exact writtenItem_short h.1
    | withDefault _ _ => cases hdefault
    | _ => cases hstands
  | false =>
    rw [if_neg Bool.false_ne_true]
    exact (writtenKey_of_standsBare hkey).property
      ((hvalue (h.of_key hstands)).mono (le_strength _))

/-! ## The induction -/

mutual
theorem prints_reread : (e : Expr) → e.WellFormed false → e.reprintable = true → (level : Nat) →
    Prints e.after (e.rendered level) e.reread
  | .ident name, h, _, _ => prints_ident h.1 h.2
  | .lit value, h, _, _ => value.prints h
  | .array items, h, hr, level =>
    prints_array (elements_reread items h hr level rfl rfl (by decide))
  | .object properties, h, hr, level => prints_object (properties_reread properties h hr level)
  | .function ⟨name, params, .block body, false⟩, h, hr, level => by
    simp only [Expr.reprintable, Function.reprintable, and_eq_true] at hr
    exact prints_function h.1 (params_reread params h.2.1 hr.1 level)
      ((lines_reread body h.2.2 hr.2 (level + 1)).braced level)
  | .function ⟨_, _, .expr _, false⟩, h, _, _ => nomatch h.2.2.1
  | .function ⟨some _, _, _, true⟩, h, _, _ => nomatch h.1
  | .function ⟨none, params, .block body, true⟩, h, hr, level => by
    simp only [Expr.reprintable, Function.reprintable, and_eq_true] at hr
    exact prints_arrowBlock (params_reread params h.2.1 hr.1 level)
      ((lines_reread body h.2.2 hr.2 (level + 1)).braced level)
  | .function ⟨none, params, .expr value, true⟩, h, hr, level => by
    simp only [Expr.reprintable, Function.reprintable, FunctionBody.reprintable, and_eq_true] at hr
    have hparams := params_reread params h.2.1 hr.1 level
    have hvalue := (prints_reread value h.2.2.2 hr.2.2 level).written assign
    simp only [Expr.rendered, Function.text, FunctionBody.text, arrowBody_eq]
    split
    · exact hvalue.arrowEnclosed hparams
    · rename_i hobject
      refine hvalue.arrow hparams
        (beginsWith_within ?_ fun ho => not_opensBrace value h.2.2.2 ho level)
      have hbrace := (Bool.or_eq_true _ _ ▸ hr.2.1).resolve_left hobject
      rwa [Bool.not_eq_true'] at hbrace
  | .unary op arg, h, hr, level => ((prints_reread arg h hr level).written unary).unary op
  | .update op true arg, h, hr, level =>
    ((prints_reread arg h hr level).written Strength.target).prefixUpdate op
  | .update op false arg, h, hr, level =>
    ((prints_reread arg h hr level).written Strength.target).postfixUpdate op
  | .binary op left right, h, hr, level => by
    simp only [Expr.reprintable, and_eq_true] at hr
    exact ((prints_reread left h.1 hr.1 level).written op.precedence).binary op
      ((prints_reread right h.2 hr.2 level).written (op.precedence + 1))
  | .assign op target value, h, hr, level => by
    simp only [Expr.reprintable, and_eq_true] at hr
    exact ((prints_reread target h.2.1 hr.1 level).written Strength.target).assign op
      (isAssignable_reread h.1) ((prints_reread value h.2.2 hr.2 level).written assign)
  | .conditional test consequent alternate, h, hr, level => by
    simp only [Expr.reprintable, and_eq_true] at hr
    exact ((prints_reread test h.1 hr.1.1 level).written (conditional + 1)).choice
      ((prints_reread consequent h.2.1 hr.1.2 level).written assign)
      ((prints_reread alternate h.2.2 hr.2 level).written assign)
  | .call callee args, h, hr, level => by
    simp only [Expr.reprintable, and_eq_true] at hr
    exact (prints_reread callee h.1 hr.1 level).calleeBase.call
      (elements_reread args h.2 hr.2 level rfl rfl (by decide))
  | .new callee args, h, hr, level => by
    simp only [Expr.reprintable, and_eq_true, Bool.or_eq_true, Bool.not_eq_true'] at hr
    have hcallee := prints_reread callee h.1 hr.1.2 level
    have hargs : List.Forall₂ (WrittenItem .rParen Grammar.element) _ _ :=
      elements_reread args h.2 hr.2 level rfl rfl (by decide)
    simp only [Expr.reread, Expr.rendered, newCallee_eq]
    split
    · exact hcallee.newEnclosed (terminates_after callee) hargs
    · rename_i hcall
      exact hcallee.calleeBase.new (isNew_root_reread (hr.1.1.resolve_left hcall)) hargs
  | .member base name, h, hr, level => by
    simp only [Expr.reprintable, and_eq_true] at hr
    exact (prints_reread base h.1 hr.2 level).accessBase.member h.2
  | .index base i, h, hr, level => by
    simp only [Expr.reprintable, and_eq_true] at hr
    exact ((prints_reread base h.1 hr.1.2 level).accessBase.mono terminates_endsName).index
      ((prints_reread i h.2 hr.2 level).written sequence)
  | .sequence (first :: second :: rest), h, hr, level =>
    prints_sequence (exprs_reread (first :: second :: rest) h.2 hr level)
  | .sequence [], h, _, _ => absurd h.1 (by decide)
  | .sequence [_], h, _, _ => absurd h.1 (Nat.not_succ_le_self 1)
  | .spread _, h, _, _ => nomatch h.1

theorem elements_reread {close} : (es : List Expr) → exprsWellFormed true es →
    exprsReprintable es = true → (level : Nat) → stops 2 (.punct close) = true →
    opensWith 2 (.punct close) = false → close ≠ .ellipsis →
    List.Forall₂ (WrittenItem close Grammar.element) (exprTexts level es) (rereadExprs es)
  | [], _, _, _, _, _, _ => .nil
  | e :: rest, h, hr, level, hstops, hopens, hclose => by
    simp only [exprsReprintable, and_eq_true] at hr
    have he := prints_reread e
    refine .cons ?_ (elements_reread rest h.2 hr.2 level hstops hopens hclose)
    cases e with
    | spread arg =>
      exact ((prints_reread arg h.1.2 hr.1 level).written assign).spread hstops hclose
    | _ => exact ((he h.1 hr.1 level).written assign).element hstops hopens

theorem exprs_reread : (es : List Expr) → exprsWellFormed false es → exprsReprintable es = true →
    (level : Nat) → List.Forall₂ (Written 2) (exprTexts level es) (rereadExprs es)
  | [], _, _, _ => .nil
  | e :: rest, h, hr, level => by
    simp only [exprsReprintable, and_eq_true] at hr
    exact .cons ((prints_reread e h.1 hr.1 level).written assign)
      (exprs_reread rest h.2 hr.2 level)

theorem properties_reread : (properties : List Property) → propertiesWellFormed properties →
    propertiesReprintable properties = true → (level : Nat) →
    List.Forall₂ (WrittenItem .rBrace Grammar.property) (propertyTexts level properties)
      (rereadProperties properties)
  | [], _, _, _ => .nil
  | ⟨key, value, true⟩ :: rest, h, hr, level => by
    simp only [propertiesReprintable, and_eq_true] at hr
    have hrest := properties_reread rest h.2 hr.2 level
    obtain ⟨name, hname, rfl, rfl⟩ := h.1
    refine .cons ?_ hrest
    have htext : (if isShort (.name name) (.ident name) true then (PropertyKey.name name).text level
        else (PropertyKey.name name).text level ++ ": " ++
          ((Expr.ident name).rendered level).within assign) = name := by
      simp [isShort, PropertyKey.text]
    rw [htext]
    exact writtenItem_short hname
  | ⟨key, value, false⟩ :: rest, h, hr, level => by
    simp only [propertiesReprintable, and_eq_true] at hr
    have hkey := key_reread key h.1.1 hr.1.1 level
    have hvalue := (prints_reread value h.1.2 hr.1.2 level).written assign
    refine .cons ?_ (properties_reread rest h.2 hr.2 level)
    rw [isShort_false, if_neg Bool.false_ne_true]
    exact hkey.property hvalue

theorem key_reread : (key : PropertyKey) → key.WellFormed → key.reprintable = true →
    (level : Nat) → WrittenKey (key.text level) key.reread
  | .name _, h, _, _ => writtenKey_name h
  | .str value, _, _, _ => writtenKey_str value
  | .computed key, h, hr, level =>
    ((prints_reread key h hr level).written assign).computedKey

theorem pattern_reread : (p : Pattern) → (asElement : Bool) → p.WellFormed true asElement none →
    p.reprintable true = true → (level : Nat) → WrittenPattern asElement (p.text level) p.reread
  | .ident name, asElement, h, _, _ =>
    (writtenTarget_ident h.1 (h.2.resolve_left nofun)).pattern asElement
  | .array items, asElement, h, hr, level => by
    simp only [Pattern.reprintable, and_eq_true] at hr
    rcases eq_hole_or_getLast?_ne hr.1 with rfl | hlast
    · have hempty : WrittenTarget ("[" ++ commas [] ++ "]") (.array []) :=
        writtenTarget_array .nil (by simp)
      exact hempty.pattern asElement
    · exact (writtenTarget_array (patternItems_reread items h hr.2 hlast level)
        (getLast?_reread hlast)).pattern asElement
  | .object properties, asElement, h, hr, level =>
    (writtenTarget_object (patternProperties_reread properties h hr level)).pattern asElement
  | .withDefault target value, true, h, hr, level => by
    simp only [Pattern.reprintable, and_eq_true] at hr
    have htarget : WrittenTarget _ _ := pattern_reread target false h.2.2.1 hr.1 level
    exact htarget.elementWithDefault
      ((prints_reread value h.2.2.2 hr.2 level).written assign)
  | .withDefault _ _, false, h, _, _ => nomatch h.1 rfl
  | .rest target, true, h, hr, level =>
    WrittenTarget.restElement (pattern_reread target false h.2 hr level)
  | .rest _, false, h, _, _ => nomatch h.1

theorem params_reread : (params : List Pattern) → paramsWellFormed params →
    paramsReprintable params = true → (level : Nat) →
    List.Forall₂ (WrittenItem .rParen Grammar.patternElement) (patternTexts level params)
      (rereadPatterns params)
  | [], _, _, _ => .nil
  | p :: rest, h, hr, level => by
    simp only [paramsReprintable, and_eq_true] at hr
    exact .cons (WrittenElement.param (pattern_reread p true h.1 hr.1 level))
      (params_reread rest h.2 hr.2 level)

theorem patternItems_reread : (items : List (Option Pattern)) → patternItemsWellFormed true items →
    patternItemsReprintable true items = true → items.getLast? ≠ some none → (level : Nat) →
    List.Forall₂ WrittenSlot (patternItemTexts level items) (rereadPatternItems items)
  | [], _, _, _, _ => .nil
  | [none], _, _, hlast, _ => absurd rfl hlast
  | none :: item :: rest, h, hr, hlast, level => by
    rw [patternItemTexts, rereadPatternItems]
    · exact .cons rfl (patternItems_reread (item :: rest) h.2 hr (by simpa using hlast) level)
    · simp
  | some p :: rest, h, hr, hlast, level => by
    simp only [patternItemsReprintable, and_eq_true] at hr
    exact .cons (pattern_reread p true h.1 hr.1 level)
      (patternItems_reread rest h.2 hr.2 (getLast?_tail hlast) level)

theorem patternProperties_reread : (properties : List PatternProperty) →
    patternPropertiesWellFormed true properties →
    patternPropertiesReprintable true properties = true → (level : Nat) →
    List.Forall₂ (WrittenItem .rBrace Grammar.patternProperty)
      (patternPropertyTexts level properties) (rereadPatternProperties properties)
  | [], _, _, _ => .nil
  | ⟨key, .rest target⟩ :: rest, h, hr, level => by
    simp only [patternPropertiesReprintable, and_eq_true] at hr
    have hkey : key = "" := h.1
    subst hkey
    exact .cons (WrittenTarget.restProperty (pattern_reread target false h.2.1.2 hr.1.2 level))
      (patternProperties_reread rest h.2.2 hr.2 level)
  | ⟨key, .ident name⟩ :: rest, h, hr, level => by
    simp only [patternPropertiesReprintable, and_eq_true] at hr
    rw [patternPropertyTexts_cons, rereadPatternProperties]
    refine .cons ?_ (patternProperties_reread rest h.2.2 hr.2 level)
    exact writtenItem_ident (h.1 rfl) h.2.1
  | ⟨key, .withDefault target value⟩ :: rest, h, hr, level => by
    simp only [patternPropertiesReprintable, Pattern.reprintable, and_eq_true] at hr
    rw [patternPropertyTexts_cons, rereadPatternProperties]
    refine .cons ?_ (patternProperties_reread rest h.2.2 hr.2 level)
    have htarget := pattern_reread target false
    have hvalue := (prints_reread value h.2.1.2.2.2 hr.1.2.2 level).written assign
    exact writtenItem_default (h.1 rfl) h.2.1 (fun h => htarget h hr.1.2.1 level) hvalue
  | ⟨key, .array items⟩ :: rest, h, hr, level => by
    simp only [patternPropertiesReprintable, and_eq_true] at hr
    exact .cons (WrittenTarget.property (h.1 rfl)
      (pattern_reread (.array items) false h.2.1 hr.1.2 level))
      (patternProperties_reread rest h.2.2 hr.2 level)
  | ⟨key, .object properties⟩ :: rest, h, hr, level => by
    simp only [patternPropertiesReprintable, and_eq_true] at hr
    exact .cons (WrittenTarget.property (h.1 rfl)
      (pattern_reread (.object properties) false h.2.1 hr.1.2 level))
      (patternProperties_reread rest h.2.2 hr.2 level)

/-- A pattern of a loop that declares nothing is read as an expression. -/
theorem assigned_reread : (p : Pattern) → p.WellFormed false false none →
    p.reprintable false = true → (level : Nat) →
    Written (if p.hasDefault then assign else Strength.target)
    (p.text level) p.reread.toExpr
  | .ident name, h, _, _ =>
    (prints_ident h.1 (h.2.resolve_left nofun)).within terminates_endsName Strength.target
  | .array items, h, hr, level => by
    simp only [Pattern.reprintable, and_eq_true] at hr
    exact (prints_array (assignedItems_reread items h hr.2 level)).within terminates_endsName
      Strength.target
  | .object properties, h, hr, level =>
    (prints_object (assignedProperties_reread properties h hr level)).within terminates_endsName
      Strength.target
  | .withDefault target value, h, hr, level => by
    simp only [Pattern.reprintable, and_eq_true] at hr
    exact writtenDefault h (assigned_reread target h.2.2.1 hr.1 level)
      ((prints_reread value h.2.2.2 hr.2 level).written assign)
  | .rest _, h, _, _ => nomatch h.1

theorem assignedItems_reread : (items : List (Option Pattern)) →
    patternItemsWellFormed false items → patternItemsReprintable false items = true →
    (level : Nat) →
    List.Forall₂ (WrittenItem .rBracket Grammar.element) (patternItemTexts level items)
      (patternItemsToExprs (rereadPatternItems items))
  | [], _, _, _ => .nil
  | none :: _, h, _, _ => nomatch h.1
  | some p :: rest, h, hr, level => by
    simp only [patternItemsReprintable, and_eq_true] at hr
    have hp := assigned_reread p
    refine .cons ?_ (assignedItems_reread rest h.2 hr.2 level)
    cases p with
    | rest target =>
      exact ((assigned_reread target h.1.2 hr.1 level).mono (le_strength _)).spread rfl (by decide)
    | withDefault target value => exact (hp ⟨nofun, h.1.2⟩ hr.1 level).element rfl rfl
    | _ => exact ((hp h.1 hr.1 level).mono (le_strength _)).element rfl rfl

theorem assignedProperties_reread : (properties : List PatternProperty) →
    patternPropertiesWellFormed false properties →
    patternPropertiesReprintable false properties = true → (level : Nat) →
    List.Forall₂ (WrittenItem .rBrace Grammar.property) (patternPropertyTexts level properties)
      (patternPropertiesToExprs (rereadPatternProperties properties))
  | [], _, _, _ => .nil
  | ⟨key, value⟩ :: rest, h, hr, level => by
    simp only [patternPropertiesReprintable, Bool.false_or, and_eq_true, Bool.not_eq_true'] at hr
    rw [patternPropertyTexts_cons]
    refine .cons ?_ (assignedProperties_reread rest h.2.2 hr.2 level)
    have hvalue := assigned_reread value
    exact writtenItem_assigned hr.1.1.1 hr.1.1.2 h.2.1 fun h => hvalue h hr.1.2 level

theorem stmt_reread : (stmt : Stmt) → stmt.WellFormed → stmt.reprintable = true → (level : Nat) →
    WrittenAs (stmt.text level) stmt.reread
  | .var kind (⟨id, init⟩ :: decls), h, hr, level =>
    writtenStmt_var kind (declarators_reread (⟨id, init⟩ :: decls) h.2 hr level)
  | .var _ [], h, _, _ => absurd rfl h.1
  | .function ⟨some name, params, .block body, false⟩, h, hr, level => by
    simp only [Stmt.reprintable, Function.reprintable, and_eq_true] at hr
    have hname := h.2.1 name rfl
    exact writtenStmt_function hname.1 hname.2 (params_reread params h.2.2.1 hr.1 level)
      ((lines_reread body h.2.2.2 hr.2 (level + 1)).braced level)
  | .function ⟨some _, _, .expr _, false⟩, h, _, _ => nomatch h.2.2.2.1
  | .function ⟨some _, _, _, true⟩, h, _, _ | .function ⟨none, _, _, _⟩, h, _, _ => nomatch h.1
  | .ret none, _, _, _ => writtenStmt_return
  | .ret (some value), h, hr, level =>
    ((prints_reread value h hr level).written sequence).returnStmt
  | .ifElse test consequent none, h, hr, level => by
    simp only [Stmt.reprintable, and_eq_true] at hr
    have htest := (prints_reread test h.1 hr.1.1 level).written sequence
    have hbody := writtenBlock_body (stmt_reread consequent h.2.1 hr.1.2) level
    show WrittenStmt (_ ++ "") _
    rw [append_empty]
    exact htest.ifStmt hbody
  | .ifElse test consequent (some alternate), h, hr, level => by
    simp only [Stmt.reprintable, and_eq_true] at hr
    have htest := (prints_reread test h.1 hr.1.1 level).written sequence
    have hbody := writtenBlock_body (stmt_reread consequent h.2.1 hr.1.2) level
    exact htest.ifElseStmt hbody (writtenStmt_else (stmt_reread alternate h.2.2 hr.2) level)
  | .forLoop none test update body, h, hr, level => by
    simp only [Stmt.reprintable, and_eq_true] at hr
    have htest := option_reread test h.2.1 hr.1.1.2 level
    have hupdate := option_reread update h.2.2.1 hr.1.2 level
    have hbody := writtenBlock_body (stmt_reread body h.2.2.2 hr.2) level
    exact htest.counting hupdate hbody .nil readsStmt_forNothing
  | .forLoop (some (.declare kind (⟨id, init⟩ :: decls))) test update body, h, hr, level => by
    simp only [Stmt.reprintable, and_eq_true] at hr
    exact writtenStmt_forDeclare kind
      (declarators_reread (⟨id, init⟩ :: decls) h.1.2 hr.1.1.1 level)
      (option_reread test h.2.1 hr.1.1.2 level) (option_reread update h.2.2.1 hr.1.2 level)
      (writtenBlock_body (stmt_reread body h.2.2.2 hr.2) level)
  | .forLoop (some (.declare _ [])) _ _ _, h, _, _ => absurd rfl h.1.1
  | .forLoop (some (.expr value)) test update body, h, hr, level => by
    simp only [Stmt.reprintable, and_eq_true] at hr
    exact ((prints_reread value h.1 hr.1.1.1 level).written sequence).forStmt
      (option_reread test h.2.1 hr.1.1.2 level) (option_reread update h.2.2.1 hr.1.2 level)
      (writtenBlock_body (stmt_reread body h.2.2.2 hr.2) level)
  | .forEach each (some kind) pattern right body, h, hr, level => by
    simp only [Stmt.reprintable, and_eq_true] at hr
    exact WrittenTarget.forEachStmt each kind (pattern_reread pattern false h.1 hr.1.1 level)
      ((prints_reread right h.2.1 hr.1.2 level).written assign)
      (writtenBlock_body (stmt_reread body h.2.2 hr.2) level)
  | .forEach each none pattern right body, h, hr, level => by
    simp only [Stmt.reprintable, and_eq_true] at hr
    exact (assigned_reread pattern h.1 hr.1.1 level).forEachStmt each
      (toPattern?_toExpr pattern h.1)
      ((prints_reread right h.2.1 hr.1.2 level).written assign)
      (writtenBlock_body (stmt_reread body h.2.2 hr.2) level)
  | .whileLoop test body, h, hr, level => by
    simp only [Stmt.reprintable, and_eq_true] at hr
    exact ((prints_reread test h.1 hr.1 level).written sequence).whileStmt
      (writtenBlock_body (stmt_reread body h.2 hr.2) level)
  | .breakLoop, _, _, _ => writtenStmt_break
  | .continueLoop, _, _, _ => writtenStmt_continue
  | .block body, h, hr, level => (lines_reread body h hr (level + 1)).braced level
  | .expr value, h, hr, level => ((prints_reread value h hr level).written sequence).stmt
  | .empty, _, _, _ => writtenStmt_empty

theorem lines_reread : (stmts : List Stmt) → stmtsWellFormed stmts → stmtsReprintable stmts = true →
    (level : Nat) → WrittenLines (stmtLines level stmts) (rereadStmts stmts)
  | [], _, _, _ => writtenLines_nil
  | stmt :: rest, h, hr, level => by
    simp only [stmtsReprintable, and_eq_true] at hr
    exact (stmt_reread stmt h.1 hr.1 level).stmt.line level (lines_reread rest h.2 hr.2 level)

theorem declarators_reread : (decls : List Declarator) → declaratorsWellFormed decls →
    declaratorsReprintable decls = true → (level : Nat) →
    List.Forall₂ WrittenDeclarator (declaratorTexts level decls) (rereadDeclarators decls)
  | [], _, _, _ => .nil
  | ⟨id, none⟩ :: rest, h, hr, level => by
    simp only [declaratorsReprintable, and_eq_true] at hr
    exact .cons (WrittenTarget.declarator (pattern_reread id false h.1 hr.1.1 level))
      (declarators_reread rest h.2.2 hr.2 level)
  | ⟨id, some init⟩ :: rest, h, hr, level => by
    simp only [declaratorsReprintable, and_eq_true] at hr
    exact .cons (WrittenTarget.initialised (pattern_reread id false h.1 hr.1.1 level)
      ((prints_reread init h.2.1 hr.1.2 level).written assign))
      (declarators_reread rest h.2.2 hr.2 level)

theorem option_reread : (e : Option Expr) → optionWellFormed e → optionReprintable e = true →
    (level : Nat) → WrittenOptional (headPart (exprText? level e)) (rereadOption e)
  | none, _, _, _ => writtenOptional_none
  | some e, h, hr, level => ((prints_reread e h hr level).written sequence).optional
end

/-- The printed text of a script is read as a script that prints the same. -/
theorem Program.ofSource_print {program : Program} (h : stmtsWellFormed program.body)
    (hr : program.reprintable = true) : Program.ofSource program.print = .ok program.reread :=
  (lines_reread program.body h hr 0).ofSource

end IndicatorCompiler.Script
