import IndicatorCompiler.Lowering.Tree
import IndicatorCompiler.Pine.Grammar.Expression
import IndicatorCompiler.Proofs.ParserOutput
import IndicatorCompiler.Proofs.Reprint

/-!
# Printed scripts are read back

A script printed from a source is accepted again and prints as the same text.  What is printed need
not be read back as the tree it was printed from: a single statement under a test becomes a block,
and an infinite literal becomes a name.  `Program.reread` is the tree that is read, and it prints
alike.  Six shapes print as a text that is refused or that prints as another text; a script with
none of them is `Program.reprintable`.

The tables of strengths of the printer and the parser agree: an expression made of names, literals,
operators, accesses and calls is printed as a text that is this expression and nothing else, whether
or not it came from a source.
-/

namespace IndicatorCompiler.Script

open Text (Cursor)
open Bool (and_eq_true)

/-- A source has a property if its characters are read as a script that has it. -/
theorem any_ofSource {source cs} {p : Program → Bool} (hcs : source.toList = cs)
    (h : ((tokens (.ofText cs)).toOption.any fun ts => (Program.ofTokens ts).toOption.any p) = true) :
    (Program.ofSource source).toOption.any p = true := by
  obtain ⟨ts, hts, h⟩ := eq_ok_of_any h
  obtain ⟨program, hprogram, h⟩ := eq_ok_of_any h
  simp only [Program.ofSource, scan, hcs, hts, hprogram]
  exact h

/-- The printed text of the script is accepted, and what is read from it prints as the same text. -/
def Program.IsFixedPoint (program : Program) : Prop :=
  ∃ again, Program.ofSource program.print = .ok again ∧ again.print = program.print

/-- A source that is read as a reprintable script prints as a fixed point. -/
theorem Program.print_isFixedPoint {source : String} {program : Program}
    (h : Program.ofSource source = .ok program) (hr : program.reprintable = true) :
    program.IsFixedPoint := by
  have hwell := Program.wellFormed_of_ofSource h
  exact ⟨program.reread, Program.ofSource_print hwell hr, Program.print_reread hwell hr⟩

/-- A source whose printed text has other blocks, parentheses and quotes than the source, and is
read as another tree. -/
def regrouped : String :=
  "for ([a, \x7b c: d = 1e999 \x7d] of (i, j)) if (!(a = b)) (function () \x7b\x7d).k++;\n" ++
  "let [g, , h] = x => (\x7b y: - -x, 'z': 1..w \x7d), i = new (f())(...h)"

theorem regrouped_isFixedPoint : ∃ program, Program.ofSource regrouped = .ok program ∧
    program.reprintable = true ∧ program.IsFixedPoint := by
  obtain ⟨program, h, hr⟩ : ∃ program, Program.ofSource regrouped = .ok program ∧
      program.reprintable = true :=
    eq_ok_of_any (any_ofSource (toList_append_of String.toList_ofList) (by decide +kernel))
  exact ⟨program, h, hr, Program.print_isFixedPoint h hr⟩

instance (program : Program) : Decidable program.IsFixedPoint :=
  match h : Program.ofSource program.print with
  | .ok again => decidable_of_iff (again.print = program.print) (by simp [Program.IsFixedPoint, h])
  | .error _ => .isFalse (by simp [Program.IsFixedPoint, h])

/-- The source is accepted and its printed text is no fixed point. -/
def PrintsUnstably (source : String) : Prop :=
  ∃ program, Program.ofSource source = .ok program ∧ ¬program.IsFixedPoint

instance (source : String) : Decidable (PrintsUnstably source) :=
  match h : Program.ofSource source with
  | .ok program => decidable_of_iff (¬program.IsFixedPoint) (by simp [PrintsUnstably, h])
  | .error _ => .isFalse (by simp [PrintsUnstably, h])

/-- The shapes that a reprintable script has none of: a hole at the end of an array pattern loses
its comma, a key that is no word and a default beside its own key lose what marks them where a loop
assigns to what exists, the parentheses of an accessed infinite literal are dropped the second time,
and those around a constructor made by `new` and around an arrow's object are dropped at once. -/
theorem printsUnstably_shapes : PrintsUnstably "let [a, , ] = b;" ∧
      PrintsUnstably "for (\x7b 'a b': c \x7d of d) \x7b\x7d" ∧
      PrintsUnstably "for (\x7b a: a = 1 \x7d of b) \x7b\x7d" ∧
      PrintsUnstably "1e999.a;" ∧
      PrintsUnstably "new (new A())(1);" ∧
      PrintsUnstably "let f = () => (\x7b\x7d).a;" := by
  decide +kernel

instance (name : String) : Decidable (BindingName name) := inferInstanceAs (Decidable (_ ∧ _))

/-! ## Texts that are one expression -/

/-- The expression that a text is; there is none if tokens are left over. -/
def Expr.ofText? (text : String) : Option Expr :=
  match scan text with
  | .error _ => none
  | .ok tokens =>
    match Expr.ofTokens tokens with
    | .error _ => none
    | .ok (e, left) => if left.rest.map (·.kind) = [.eof] then some e else none

theorem Reads.ofTokens {n ks e} (h : Reads n ks e) {toks} (htoks : toks.map (·.kind) = ks) {last}
    (hlast : last.kind = .eof) : Expr.ofTokens (toks ++ [last]) = .ok (e, ⟨[last], last⟩) := by
  have hs : Spans (.ofTokens (toks ++ [last])) ks ⟨[last], last⟩ :=
    ⟨toks, rfl, htoks, by simp [Stream.ofTokens]⟩
  have hdepth : ks.length ≤ (toks ++ [last]).length := by simp [← htoks]
  exact h.expression hdepth hs (by simp [Stream.current, hlast]; rfl)

theorem Written.ofText? {n text e} (h : Written n text e) : Expr.ofText? text = some e := by
  obtain ⟨ks, hlexes, -, hreads⟩ := h
  obtain ⟨toks, last, hscan, hkinds, hlast⟩ := hlexes.scan
  simp [Expr.ofText?, hscan, hreads.ofTokens hkinds hlast, hlast]

/-! ## Expressions that print as themselves -/

mutual
/-- The expression holds no function, no `new` and no infinite literal. -/
def Expr.isPlain : Expr → Bool
  | .ident _ => true
  | .lit value => !(Expr.lit value).isInfinite
  | .array items => exprsPlain items
  | .object properties => propertiesPlain properties
  | .function _ | .new _ _ => false
  | .unary _ arg | .update _ _ arg | .spread arg => arg.isPlain
  | .binary _ left right => left.isPlain && right.isPlain
  | .assign _ target value => target.isPlain && value.isPlain
  | .conditional test consequent alternate =>
    test.isPlain && consequent.isPlain && alternate.isPlain
  | .call callee args => callee.isPlain && exprsPlain args
  | .member base _ => base.isPlain
  | .index base i => base.isPlain && i.isPlain
  | .sequence items => exprsPlain items

/-- All expressions are plain. -/
def exprsPlain : List Expr → Bool
  | [] => true
  | e :: rest => e.isPlain && exprsPlain rest

/-- All properties are plain. -/
def propertiesPlain : List Property → Bool
  | [] => true
  | ⟨key, value, _⟩ :: rest => key.isPlain && value.isPlain && propertiesPlain rest

/-- A computed key is plain. -/
def PropertyKey.isPlain : PropertyKey → Bool
  | .computed key => key.isPlain
  | _ => true
end

theorem Literal.reread_plain {value} (h : (Expr.lit value).isPlain = true) :
    value.reread = .lit value := by
  cases value with
  | num value =>
    cases value with
    | infinite _ => exact absurd h Bool.false_ne_true
    | _ => rfl
  | _ => rfl

theorem isInfinite_plain {e : Expr} (h : e.isPlain = true) : e.isInfinite = false := by
  cases e with
  | lit value => exact (Bool.not_eq_true' _).mp h
  | _ => rfl

mutual
theorem reread_plain : (e : Expr) → e.isPlain = true → e.reread = e
  | .ident _, _ => rfl
  | .lit _, h => by rw [Expr.reread, Literal.reread_plain h]
  | .array items, h => by rw [Expr.reread, rereadExprs_plain items h]
  | .object properties, h => by rw [Expr.reread, rereadProperties_plain properties h]
  | .unary _ arg, h | .update _ _ arg, h | .spread arg, h | .member arg _, h => by
    rw [Expr.reread, reread_plain arg h]
  | .binary _ left right, h | .assign _ left right, h | .index left right, h => by
    simp only [Expr.isPlain, and_eq_true] at h
    rw [Expr.reread, reread_plain left h.1, reread_plain right h.2]
  | .conditional test consequent alternate, h => by
    simp only [Expr.isPlain, and_eq_true] at h
    rw [Expr.reread, reread_plain test h.1.1, reread_plain consequent h.1.2,
      reread_plain alternate h.2]
  | .call callee args, h => by
    simp only [Expr.isPlain, and_eq_true] at h
    rw [Expr.reread, reread_plain callee h.1, rereadExprs_plain args h.2]
  | .sequence items, h => by rw [Expr.reread, rereadExprs_plain items h]

theorem rereadExprs_plain : (es : List Expr) → exprsPlain es = true → rereadExprs es = es
  | [], _ => rfl
  | e :: rest, h => by
    simp only [exprsPlain, and_eq_true] at h
    rw [rereadExprs, reread_plain e h.1, rereadExprs_plain rest h.2]

theorem rereadProperties_plain : (properties : List Property) → propertiesPlain properties = true →
    rereadProperties properties = properties
  | [], _ => rfl
  | ⟨key, value, _⟩ :: rest, h => by
    simp only [propertiesPlain, and_eq_true] at h
    rw [rereadProperties, rereadKey_plain key h.1.1, reread_plain value h.1.2,
      rereadProperties_plain rest h.2]

theorem rereadKey_plain : (key : PropertyKey) → key.isPlain = true → key.reread = key
  | .name _, _ => rfl
  | .str _, _ => rfl
  | .computed key, h => by rw [PropertyKey.reread, reread_plain key h]
end

mutual
theorem reprintable_plain : (e : Expr) → e.isPlain = true → e.reprintable = true
  | .ident _, _ => rfl
  | .lit _, _ => rfl
  | .array items, h => exprsReprintable_plain items h
  | .object properties, h => propertiesReprintable_plain properties h
  | .unary _ arg, h | .update _ _ arg, h
  | .spread arg, h => by rw [Expr.reprintable, reprintable_plain arg h]
  | .binary _ left right, h | .assign _ left right, h => by
    simp only [Expr.isPlain, and_eq_true] at h
    simp [Expr.reprintable, reprintable_plain left h.1, reprintable_plain right h.2]
  | .conditional test consequent alternate, h => by
    simp only [Expr.isPlain, and_eq_true] at h
    simp [Expr.reprintable, reprintable_plain test h.1.1, reprintable_plain consequent h.1.2,
      reprintable_plain alternate h.2]
  | .call callee args, h => by
    simp only [Expr.isPlain, and_eq_true] at h
    simp [Expr.reprintable, reprintable_plain callee h.1, exprsReprintable_plain args h.2]
  | .member base _, h => by
    simp [Expr.reprintable, isInfinite_plain (e := base) h, reprintable_plain base h]
  | .index base i, h => by
    simp only [Expr.isPlain, and_eq_true] at h
    simp [Expr.reprintable, isInfinite_plain h.1, reprintable_plain base h.1,
      reprintable_plain i h.2]
  | .sequence items, h => exprsReprintable_plain items h

theorem exprsReprintable_plain : (es : List Expr) → exprsPlain es = true →
    exprsReprintable es = true
  | [], _ => rfl
  | e :: rest, h => by
    simp only [exprsPlain, and_eq_true] at h
    simp [exprsReprintable, reprintable_plain e h.1, exprsReprintable_plain rest h.2]

theorem propertiesReprintable_plain : (properties : List Property) →
    propertiesPlain properties = true → propertiesReprintable properties = true
  | [], _ => rfl
  | ⟨key, value, _⟩ :: rest, h => by
    simp only [propertiesPlain, and_eq_true] at h
    simp [propertiesReprintable, keyReprintable_plain key h.1.1, reprintable_plain value h.1.2,
      propertiesReprintable_plain rest h.2]

theorem keyReprintable_plain : (key : PropertyKey) → key.isPlain = true → key.reprintable = true
  | .name _, _ => rfl
  | .str _, _ => rfl
  | .computed key, h => reprintable_plain key h
end

/-- The text of a plain expression is this expression. -/
theorem Expr.ofText?_print {e : Expr} (h : e.WellFormed false) (hplain : e.isPlain = true) :
    Expr.ofText? e.print = some e := by
  have hwritten := (prints_reread e h (reprintable_plain e hplain) 0).written Strength.lowest
  rw [reread_plain e hplain] at hwritten
  exact hwritten.ofText?

/-- An expression whose operands bind less than their places ask for, with signs behind signs and a
number in front of a dot. -/
def looselyBound : Expr :=
  .unary .neg (.unary .neg (.update .decrement true (.member (.conditional
      (.assign .assign (.object [⟨.name "if", .member (.num (.ofLexeme ['5'])) "of", false⟩,
        ⟨.str "a b", .sequence [.ident "a", .lit .null], false⟩, ⟨.name "c", .ident "c", true⟩])
        (.array [.spread (.sequence [.ident "a", .str "\n"])]))
      (.binary .mul (.binary .or (.ident "a") (.ident "b"))
        (.binary .mod (.ident "b") (.ident "c")))
      (.call (.update .increment false
        (.index (.ident "a") (.assign .sub (.ident "b") (.ident "c"))))
        [.spread (.ident "c"),
          .unary .typeOf (.binary .sub (.ident "a") (.unary .neg (.ident "b")))]))
    "new")))

theorem looselyBound_ofText? : looselyBound.WellFormed false ∧ looselyBound.isPlain = true ∧
    Expr.ofText? looselyBound.print = some looselyBound := by
  have hname : BindingName "a" ∧ BindingName "b" ∧ BindingName "c" := by decide
  have hword : isName "if" = true ∧ isName "of" = true ∧ isName "c" = true ∧
      isName "new" = true := by decide
  have hnumber : Expr.WellFormed false (.num (.ofLexeme ['5'])) := ofLexeme_wellFormed _
  have hwell : looselyBound.WellFormed false := by
    simp [looselyBound, Expr.WellFormed, exprsWellFormed, propertiesWellFormed,
      PropertyKey.WellFormed, Literal.WellFormed, Expr.str, Grammar.isAssignable, hname, hword,
      hnumber]
  have hplain : looselyBound.isPlain = true := by decide +kernel
  exact ⟨hwell, hplain, Expr.ofText?_print hwell hplain⟩

/-! ## String literals

A written string is read back as its content, whatever follows it, so the strings and colors of an
indicator reach the script, and the script printed again, as they were. -/

theorem ofText?_quote (value : String) : Expr.ofText? (Text.quote value) = some (.str value) := by
  obtain ⟨ks, hlexes, hbegins, hreads, -⟩ := prints_str value
  exact Written.ofText? ⟨ks, hlexes.mono fun _ => endsName_of_endsNumber, hbegins, hreads⟩

/-- Every stage keeps the content of a string or a color. -/
theorem content_kept (value : String) :
    -- the parser of indicators takes it from the token
    (∀ nested (t : Pine.Token) tokens last ending,
      (Pine.Grammar.atom nested).run ⟨{ t with kind := .str value } :: tokens, last, ending⟩ =
          .ok (.str value, ⟨tokens, some (.str value), ending⟩) ∧
        (Pine.Grammar.atom nested).run ⟨{ t with kind := .color value } :: tokens, last, ending⟩ =
          .ok (.color value, ⟨tokens, some (.color value), ending⟩)) ∧
      -- the generator writes it between quotes, in every state and without an effect
      (∀ g : Lowering.Generator, ∀ e ∈ [Pine.Expr.str value, .color value],
        (Lowering.lowerExpr e).rendered.run g = (⟨Text.quote value, Strength.primary⟩, g)) ∧
      -- the scanner reads it back, and stops at the closing quote
      (∀ c : Cursor, ∀ rest : List Char, ∃ after : Cursor,
        next { c with rest := (Text.quote value).toList ++ rest } =
          .ok (⟨.str value, c.offset, c.position⟩, some after) ∧ after.rest = rest) ∧
      -- so does the parser of scripts
      (∀ nested (t : Token) tokens ending,
        (Grammar.primary nested).run ⟨{ t with kind := .str value } :: tokens, ending⟩ =
          .ok (.str value, ⟨tokens, ending⟩)) ∧
      -- the printer writes the same text again
      (∀ level, (Expr.str value).rendered level = ⟨Text.quote value, Strength.primary⟩) ∧
      Expr.ofText? (Expr.str value).print = some (.str value) := by
  refine ⟨fun _ _ _ _ _ => ⟨rfl, rfl⟩, ?_, fun c rest => next_quote value rfl,
    fun _ _ _ _ => rfl, fun _ => rfl, ofText?_quote value⟩
  intro g e he
  rcases List.mem_pair.mp he with rfl | rfl <;> rfl

end IndicatorCompiler.Script
