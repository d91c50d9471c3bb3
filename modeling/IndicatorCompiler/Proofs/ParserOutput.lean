import IndicatorCompiler.Proofs.Agreement
import IndicatorCompiler.Proofs.WellFormed
import IndicatorCompiler.Script.Program

/-!
# What the parser returns

Scanned tokens carry names and unsigned numbers only, and every parser of the grammar makes
well-formed trees of such tokens.
-/

namespace IndicatorCompiler.Script

open Parsing (Left)
open Option (some.inj map_eq_some_iff)

/-! ## Tokens -/

/-- A token that a text can have. -/
def Kind.Valid : Kind → Prop
  | .ident name => isName name = true
  | .num value => (Literal.num value).WellFormed
  | _ => True

/-- A class of tokens that a text can have. -/
structure TokenClass where
  Has : Token → Prop
  valid : ∀ {t : Token}, Has t → t.kind.Valid

namespace TokenClass

/-- The second is the first, which has tokens of the class, with more end tokens.  The tokens are
the last ones of `r`, and with `c`, some of these have been read.  The next token is of the kind, if
one is given. -/
structure Ahead (T : TokenClass) (r : List Token) (c : Bool) (k : Option Kind) (s t : Stream) :
    Prop where
  same : ∃ m, t = { s with rest := s.rest ++ List.replicate m s.ending }
  tokens : ∀ u ∈ s.rest, T.Has u
  ending : T.Has s.ending
  ended : s.ending.kind = .eof
  left : Left r c s.rest
  faces : ∀ kind ∈ k, s.current.kind = kind

/-- Related streams, whatever comes next. -/
abbrev Streams (T : TokenClass) (r : List Token) (c : Bool) : Stream → Stream → Prop :=
  T.Ahead r c none

/-- The error is at a token of the class. -/
def Errors (T : TokenClass) (e f : ParseError) : Prop :=
  e = f ∧ ∃ t, T.Has t ∧ e.position = t.position

/-- From tokens of the class both parsers return the same, which has `P`, or fail at one of them. -/
abbrev Keeps {α : Type} (T : TokenClass) (r : List Token) (c : Bool) (x y : Parser α)
    (P : α → Prop) : Prop :=
  Agrees (T.Streams r c) (fun _ => T.Streams r c) T.Errors x y P

/-- Besides, they read a token, unless one has been read already. -/
abbrev Reads {α : Type} (T : TokenClass) (r : List Token) (c : Bool) (x y : Parser α)
    (P : α → Prop) : Prop :=
  Agrees (T.Streams r c) (fun _ => T.Streams r true) T.Errors x y P

/-- The parsers return values while they read tokens. -/
abbrev Strides {α : Type} (T : TokenClass) (r : List Token) (x y : Parser (Option α))
    (P : α → Prop) : Prop :=
  Agrees (T.Streams r false) (fun a => T.Streams r a.isSome) T.Errors x y fun a => ∀ b ∈ a, P b

/-- Some token has been read, so that what is left is shorter. -/
abbrev Below {α : Type} (T : TokenClass) (r : List Token) (x y : Parser α) (P : α → Prop) : Prop :=
  ∀ r', Left r true r' → T.Reads r' false x y P

variable {T : TokenClass} {r : List Token} {c : Bool} {k : Kind} {s t : Stream}

theorem Ahead.current {k} (h : T.Ahead r c k s t) : T.Has s.current := by
  obtain ⟨rest, ending⟩ := s
  cases rest with
  | nil => exact h.ending
  | cons t rest => exact h.tokens t List.mem_cons_self

theorem Ahead.current_eq {k} (h : T.Ahead r c k s t) : t.current = s.current := by
  obtain ⟨m, rfl⟩ := h.same
  obtain ⟨rest, ending⟩ := s
  cases rest with
  | nil => cases m <;> rfl
  | cons => rfl

theorem Ahead.tail (h : T.Ahead r c (some k) s t) (hk : k ≠ .eof) :
    T.Streams r true s.tail t.tail := by
  obtain ⟨rest, ending⟩ := s
  cases rest with
  | nil => exact absurd (h.faces k rfl ▸ h.ended) hk
  | cons u rest =>
    obtain ⟨m, rfl⟩ := h.same
    exact ⟨⟨m, rfl⟩, (List.forall_mem_cons.mp h.tokens).2, h.ending, h.ended, h.left.tail, nofun⟩

theorem Ahead.based : Parsing.Based Stream.rest T.Streams where
  tokens h := h.left
  rebase h h' := { h with left := h' }
  enough {r c s t} h := by
    obtain ⟨m, rfl⟩ := h.same
    refine ⟨Nat.le_refl _, ?_⟩
    show s.rest.length ≤ (s.rest ++ List.replicate m s.ending).length
    rw [List.length_append]
    exact Nat.le_add_right _ _

theorem streams_ofTokens {toks} (h : ∀ t ∈ toks, T.Has t)
    (hlast : ∃ t, toks.getLast? = some t ∧ t.kind = .eof) (m : Nat) :
    let s := Stream.ofTokens toks
    T.Streams toks false s { s with rest := toks ++ List.replicate m s.ending } := by
  obtain ⟨t, ht, hk⟩ := hlast
  have hending : (Stream.ofTokens toks).ending = t := by simp [Stream.ofTokens, ht]
  exact ⟨⟨m, rfl⟩, h, hending ▸ h t (List.mem_of_getLast? ht), hending ▸ hk, .refl, nofun⟩

end TokenClass

variable {T : TokenClass} {r : List Token} {c : Bool} {e : Expr} {p : Pattern} {declared : Bool}
  {toks : List Token} {key : Option String}

namespace Parser

variable {α β : Type} {P : α → Prop} {S : Stream → Stream → Prop} {U : α → Stream → Stream → Prop}
    {k : Kind} {x y : Parser α}

theorem reads_ahead {k} (h : Agrees (T.Streams r c) U T.Errors x y P) :
    Agrees (T.Ahead r c k) U T.Errors x y P :=
  fun _ _ hst => h { hst with faces := nofun }

theorem reads_weaken (h : Agrees S (fun _ => T.Streams r true) T.Errors x y P) :
    Agrees S (fun _ => T.Streams r c) T.Errors x y P :=
  TokenClass.Ahead.based.agrees_weaken h

theorem reads_below (h : T.Below r x y P) : T.Reads r true x y P :=
  TokenClass.Ahead.based.agrees_rebase h

theorem reads_kind_bind {f g : Kind → Parser α}
    (h : ∀ k, k.Valid → Agrees (T.Ahead r c (some k)) U T.Errors (f k) (g k) P) :
    Agrees (T.Streams r c) U T.Errors (kind >>= f) (kind >>= g) P := by
  intro s t hst
  show Agreed U T.Errors P (f s.current.kind s) (g t.current.kind t)
  rw [hst.current_eq]
  exact h s.current.kind (T.valid hst.current) { hst with faces := fun _ hk => some.inj hk }

theorem reads_refuse {k expected} :
    Agrees (T.Ahead r c k) U T.Errors (refuse expected) (refuse expected) P := by
  refine agrees_get_bind fun s t hst => ?_
  rw [hst.current_eq]
  exact agrees_throw ⟨rfl, _, hst.current, rfl⟩

theorem reads_advance_bind {f g : Unit → Parser α} (hk : k ≠ .eof)
    (h : Agrees (T.Streams r true) U T.Errors (f ()) (g ()) P) :
    Agrees (T.Ahead r c (some k)) U T.Errors (advance >>= f) (advance >>= g) P :=
  fun _ _ hst => h (hst.tail hk)

theorem reads_at? (k : Kind) : T.Keeps r c (at? k) (at? k) fun _ => True :=
  reads_kind_bind fun _ _ => reads_ahead (agrees_pure trivial)

theorem reads_eat_bind {f g : Bool → Parser α} (hk : k ≠ .eof)
    (htrue : Agrees (T.Streams r true) U T.Errors (f true) (g true) P)
    (hfalse : Agrees (T.Streams r c) U T.Errors (f false) (g false) P) :
    Agrees (T.Streams r c) U T.Errors (eat k >>= f) (eat k >>= g) P := by
  simp only [eat, at?, bind_assoc]
  refine reads_kind_bind fun found _ => ?_
  by_cases hfound : found = k
  · subst hfound
    simpa using reads_advance_bind hk htrue
  · simpa [hfound] using reads_ahead hfalse

theorem reads_eatPunct {p : Punct} : Agrees (T.Streams r false) (fun found => T.Streams r found)
    T.Errors (eatPunct p) (eatPunct p) fun _ => True := by
  rw [← bind_pure (eatPunct p)]
  exact reads_eat_bind nofun (fun _ _ hst => .ok trivial hst) fun _ _ hst => .ok trivial hst

theorem reads_punct {p : Punct} : T.Reads r c (punct p) (punct p) fun _ => True :=
  reads_eat_bind nofun (agrees_pure trivial) reads_refuse

theorem reads_word {w : String} : T.Reads r c (word w) (word w) fun _ => True :=
  reads_eat_bind nofun (agrees_pure trivial) reads_refuse

theorem reads_name : T.Reads r c name name BindingName := by
  refine reads_kind_bind fun k hk => ?_
  split
  · split
    · exact reads_refuse
    · rename_i hreserved
      exact reads_advance_bind nofun (agrees_pure ⟨hk, hreserved⟩)
  · exact reads_refuse

theorem reads_propertyName :
    T.Reads r c propertyName propertyName fun name => isName name = true := by
  refine reads_kind_bind fun k hk => ?_
  split
  · exact reads_advance_bind nofun (agrees_pure hk)
  · exact reads_refuse

theorem reads_endStatement : T.Reads r true endStatement endStatement fun _ => True :=
  reads_eat_bind nofun (agrees_pure trivial) (agrees_pure trivial)

theorem reads_repeated {step step'} (h : ∀ r', Left r c r' → T.Strides r' step step' P) :
    T.Keeps r c (Parsing.repeated step) (Parsing.repeated step') fun as => ∀ a ∈ as, P a :=
  TokenClass.Ahead.based.agrees_repeated h

theorem reads_commaItemsOne (hfirst : T.Reads r c x y P) (h : T.Below r x y P) :
    T.Reads r c (Parsing.itemsOne (eatPunct .comma) x) (Parsing.itemsOne (eatPunct .comma) y)
      fun as => as ≠ [] ∧ ∀ a ∈ as, P a :=
  TokenClass.Ahead.based.agrees_itemsOne (fun _ => reads_eatPunct) hfirst h

theorem reads_commaItems {close} (h : ∀ r', Left r true r' → T.Keeps r' false x y P) :
    T.Reads r true (commaItems close x) (commaItems close y) fun as => ∀ a ∈ as, P a := by
  have hitems := TokenClass.Ahead.based.agrees_items (fun _ => reads_at? (.punct close))
    (fun _ => reads_eatPunct (p := .comma)) h
  exact hitems.bind fun as has => reads_punct.then (agrees_pure has)

end Parser

open IndicatorCompiler.Script.Parser

/-! ## Lists of well-formed trees -/

theorem exprsWellFormed_iff {asElement es} :
    exprsWellFormed asElement es ↔ ∀ e ∈ es, e.WellFormed asElement := by
  induction es with
  | nil => simp [exprsWellFormed]
  | cons e es ih => simp [exprsWellFormed, ih]

theorem paramsWellFormed_iff {ps} :
    paramsWellFormed ps ↔ ∀ p ∈ ps, p.WellFormed true true none := by
  induction ps with
  | nil => simp [paramsWellFormed]
  | cons p ps ih => simp [paramsWellFormed, ih]

theorem stmtsWellFormed_iff {stmts} : stmtsWellFormed stmts ↔ ∀ stmt ∈ stmts, stmt.WellFormed := by
  induction stmts with
  | nil => simp [stmtsWellFormed]
  | cons stmt stmts ih => simp [stmtsWellFormed, ih]

theorem Expr.WellFormed.asElement (h : e.WellFormed false) : e.WellFormed true := by
  cases e with
  | spread arg => cases h.1
  | _ => exact h

/-- The suffix can be read behind an expression. -/
def Grammar.Suffix.WellFormed : Grammar.Suffix → Prop
  | .member name => isName name = true
  | .index i => i.WellFormed false
  | .call args => exprsWellFormed true args

theorem Grammar.Suffix.wellFormed_foldl {more : List Grammar.Suffix}
    (he : e.WellFormed false) (h : ∀ suffix ∈ more, suffix.WellFormed) :
    (more.foldl Grammar.Suffix.apply e).WellFormed false := by
  induction more generalizing e with
  | nil => exact he
  | cons suffix more ih =>
    obtain ⟨hfirst, hrest⟩ := List.forall_mem_cons.mp h
    refine ih ?_ hrest
    cases suffix with
    | member name | index i | call args => exact ⟨he, hfirst⟩

/-- The property can be read. -/
def Property.WellFormed (property : Property) : Prop := propertiesWellFormed [property]

theorem propertiesWellFormed_of_forall {properties}
    (h : ∀ property ∈ properties, property.WellFormed) : propertiesWellFormed properties := by
  induction properties with
  | nil => trivial
  | cons property properties ih =>
    obtain ⟨hfirst, hrest⟩ := List.forall_mem_cons.mp h
    obtain ⟨key, value, shorthand⟩ := property
    exact ⟨hfirst.1, ih hrest⟩

theorem patternItemsWellFormed_of_forall {items}
    (h : ∀ item ∈ items, ∀ p ∈ item, p.WellFormed true true none) :
    patternItemsWellFormed true items := by
  induction items with
  | nil => trivial
  | cons item items ih =>
    obtain ⟨hfirst, hrest⟩ := List.forall_mem_cons.mp h
    cases item with
    | none => exact ⟨rfl, ih hrest⟩
    | some p => exact ⟨hfirst p rfl, ih hrest⟩

/-- The property of a pattern can be read where a declaration binds it. -/
def PatternProperty.WellFormed (property : PatternProperty) : Prop :=
  patternPropertiesWellFormed true [property]

theorem patternPropertiesWellFormed_of_forall {properties}
    (h : ∀ property ∈ properties, property.WellFormed) :
    patternPropertiesWellFormed true properties := by
  induction properties with
  | nil => trivial
  | cons property properties ih =>
    obtain ⟨hfirst, hrest⟩ := List.forall_mem_cons.mp h
    obtain ⟨key, value⟩ := property
    exact ⟨hfirst.1, hfirst.2.1, ih hrest⟩

/-- The binding can be read. -/
def Declarator.WellFormed (d : Declarator) : Prop := declaratorsWellFormed [d]

theorem declaratorsWellFormed_of_forall {decls} (h : ∀ d ∈ decls, d.WellFormed) :
    declaratorsWellFormed decls := by
  induction decls with
  | nil => trivial
  | cons d decls ih =>
    obtain ⟨hfirst, hrest⟩ := List.forall_mem_cons.mp h
    obtain ⟨id, init⟩ := d
    exact ⟨hfirst.1, hfirst.2.1, ih hrest⟩

/-! ## Patterns of the grammar -/

/-- What can be bound can be an element. -/
theorem Pattern.WellFormed.asElement
    (h : p.WellFormed declared false key) : p.WellFormed declared true key := by
  cases p with
  | withDefault target value => exact ⟨fun _ => rfl, h.2⟩
  | rest target => cases h.1
  | _ => exact h

/-- A name that needs no key may have one. -/
theorem Pattern.WellFormed.keyed {asElement} (h : p.WellFormed declared asElement none)
    (key : Option String) : p.WellFormed declared asElement key := by
  cases p with
  | ident name => exact ⟨h.1, .inr (h.2.resolve_left nofun)⟩
  | withDefault target value =>
    refine ⟨h.1, h.2.1, ?_, h.2.2.2⟩
    have htarget := h.2.2.1
    cases target with
    | ident name => exact ⟨htarget.1, .inr (htarget.2.resolve_left nofun)⟩
    | withDefault _ _ => cases h.2.1
    | _ => exact htarget
  | _ => exact h

/-- What can be bound is no rest element and, if it is declared, has no default. -/
theorem Pattern.WellFormed.shape (h : p.WellFormed declared false key) :
    p.isRest = false ∧ (declared = true → p.hasDefault = false) := by
  cases p with
  | withDefault target value => exact ⟨rfl, fun hd => nomatch h.1 hd⟩
  | rest target => cases h.1
  | _ => exact ⟨rfl, fun _ => rfl⟩

/-- What a plain assignment can assign to is read as a pattern without a default. -/
theorem hasDefault_of_isAssignable (h : Grammar.isAssignable .assign e = true)
    (hp : e.toPattern? = some p) : p.hasDefault = false := by
  cases e with
  | ident name =>
    obtain rfl := some.inj hp
    rfl
  | array items | object properties =>
    obtain ⟨_, -, rfl⟩ := map_eq_some_iff.mp hp
    rfl
  | member _ _ | index _ _ => cases hp
  | _ => cases h

theorem patternProperties?_cons_eq_some {key value shorthand rest properties}
    (h : patternProperties? (⟨key, value, shorthand⟩ :: rest) = some properties) :
    ∃ k v rest', (key = .name k ∨ key = .str k) ∧ value.toPattern? = some v ∧
      patternProperties? rest = some rest' ∧ properties = ⟨k, v⟩ :: rest' := by
  cases key with
  | name k =>
    simp only [patternProperties?, bind, Option.bind_eq_some_iff] at h
    obtain ⟨v, hvalue, rest', hrest, h⟩ := h
    exact ⟨k, v, rest', .inl rfl, hvalue, hrest, (some.inj h).symm⟩
  | str k =>
    simp only [patternProperties?, bind, Option.bind_eq_some_iff] at h
    obtain ⟨v, hvalue, rest', hrest, h⟩ := h
    exact ⟨k, v, rest', .inr rfl, hvalue, hrest, (some.inj h).symm⟩
  | computed key => simp [patternProperties?] at h

mutual
/-- An expression that is read as a pattern is a pattern of an assignment. -/
theorem Expr.WellFormed.toPattern : (e : Expr) → {asElement : Bool} → {p : Pattern} →
    e.WellFormed asElement → e.toPattern? = some p → p.WellFormed false asElement none
  | .ident name, _, _, h, hp => by
    obtain rfl := some.inj hp
    exact ⟨h.1, .inr h.2⟩
  | .array items, _, _, h, hp => by
    obtain ⟨items', hitems, rfl⟩ := map_eq_some_iff.mp hp
    exact wellFormed_patternItems items h hitems
  | .object properties, _, _, h, hp => by
    obtain ⟨properties', hproperties, rfl⟩ := map_eq_some_iff.mp hp
    exact wellFormed_patternProperties properties h hproperties
  | .assign .assign target value, _, _, h, hp => by
    obtain ⟨target', htarget, rfl⟩ := map_eq_some_iff.mp hp
    refine ⟨nofun, ?_, Expr.WellFormed.toPattern target h.2.1 htarget, h.2.2⟩
    exact hasDefault_of_isAssignable h.1 htarget
  | .spread arg, _, _, h, hp => by
    obtain ⟨target, htarget, rfl⟩ := map_eq_some_iff.mp hp
    exact ⟨h.1, Expr.WellFormed.toPattern arg h.2 htarget⟩

theorem wellFormed_patternItems : (items : List Expr) → {items' : List (Option Pattern)} →
    exprsWellFormed true items → patternItems? items = some items' →
    patternItemsWellFormed false items'
  | [], _, _, hp => by
    obtain rfl := some.inj hp
    trivial
  | item :: rest, _, h, hp => by
    simp only [patternItems?, bind, Option.bind_eq_some_iff] at hp
    obtain ⟨p, hitem, rest', hrest, hp⟩ := hp
    obtain rfl := some.inj hp
    exact ⟨Expr.WellFormed.toPattern item h.1 hitem, wellFormed_patternItems rest h.2 hrest⟩

theorem wellFormed_patternProperties : (properties : List Property) →
    {properties' : List PatternProperty} → propertiesWellFormed properties →
    patternProperties? properties = some properties' → patternPropertiesWellFormed false properties'
  | [], _, _, hp => by
    obtain rfl := some.inj hp
    trivial
  | ⟨key, value, shorthand⟩ :: rest, _, h, hp => by
    obtain ⟨k, v, rest', hkey, hvalue, hrest, rfl⟩ := patternProperties?_cons_eq_some hp
    have hread (hv : value.WellFormed false) := Expr.WellFormed.toPattern value hv hvalue
    have hv : v.WellFormed false false (some k) := by
      cases shorthand with
      | true =>
        obtain ⟨name, hname, rfl, rfl⟩ := h.1
        obtain rfl : name = k := by simpa using hkey
        obtain rfl := some.inj hvalue
        exact ⟨hname, .inl rfl⟩
      | false => exact (hread h.1.2).keyed (some k)
    refine ⟨?_, hv, wellFormed_patternProperties rest h.2 hrest⟩
    rw [hv.shape.1, if_neg Bool.false_ne_true]
    exact nofun
end

/-- The parsers of nested phrases make well-formed trees, or fail at a token; some token has been
read before. -/
structure Nested.Reads (T : TokenClass) (r : List Token) (x y : Nested) : Prop where
  bindingTarget : T.Below r x.bindingTarget y.bindingTarget (·.WellFormed true false none)
  unary : T.Below r x.unary y.unary (·.WellFormed false)
  binary (least : Nat) : T.Below r (x.binary least) (y.binary least) (·.WellFormed false)
  assignment : T.Below r x.assignment y.assignment (·.WellFormed false)
  expression : T.Below r x.expression y.expression (·.WellFormed false)
  statement : T.Below r x.statement y.statement Stmt.WellFormed

theorem Nested.Reads.within {x y : Nested} (h : x.Reads T r y) {r'} (hr : Left r c r') :
    x.Reads T r' y :=
  ⟨fun u hu => h.bindingTarget u (hr.trans hu), fun u hu => h.unary u (hr.trans hu),
    fun n u hu => h.binary n u (hr.trans hu), fun u hu => h.assignment u (hr.trans hu),
    fun u hu => h.expression u (hr.trans hu), fun u hu => h.statement u (hr.trans hu)⟩

/-- What a parser of the grammar gives, with nested parsers that give well-formed trees. -/
abbrev Nested.Reads.Gives {α : Type} {x y : Nested} (_ : x.Reads T r y) (c : Bool)
    (f : Nested → Parser α) (P : α → Prop) : Prop :=
  T.Reads r c (f x) (f y) P

namespace Grammar

/-- The parsers of phrases whose nested phrases `inside` reads. -/
def around (inside : Nested) : Nested where
  bindingTarget := bindingTarget inside
  unary := unary inside
  binary := binary inside
  assignment := assignment inside
  expression := expression inside
  statement := statement inside

/-- `depth` levels of nesting, with `base` in place of parsers that refuse what is nested deeper. -/
def nestedOver (base : Nested) : (depth : Nat) → Nested
  | 0 => base
  | depth + 1 => around (nestedOver base depth)

theorem nested_eq (depth : Nat) : nested depth = nestedOver (nested 0) depth := by
  induction depth with
  | zero => rfl
  | succ depth ih => exact congrArg around ih

variable {x y : Nested} (hn : x.Reads T r y)

include hn

theorem reads_withDefault {target} (h : target.WellFormed true false key) :
    hn.Gives true (withDefault · target)
      fun p => p.isRest = false ∧ p.WellFormed true true key := by
  obtain ⟨hrest, hdefault⟩ := h.shape
  refine reads_eat_bind nofun ?_ (agrees_pure ⟨hrest, h.asElement⟩)
  refine (reads_below hn.assignment).bind fun value hvalue => ?_
  exact agrees_pure ⟨rfl, fun _ => rfl, hdefault rfl, h, hvalue⟩

theorem reads_patternElement :
    T.Below r (patternElement x) (patternElement y) (·.WellFormed true true none) := by
  intro r' hr
  have hn' := hn.within hr
  refine reads_eat_bind nofun ?_ ?_
  · exact (reads_below hn'.bindingTarget).bind fun target htarget => agrees_pure ⟨rfl, htarget⟩
  · refine (hn.bindingTarget r' hr).bind fun target htarget => ?_
    exact (reads_withDefault hn' htarget).mono fun p hp => hp.2

theorem reads_patternItem {r'} (hr : Left r true r') :
    T.Keeps r' false (patternItem x) (patternItem y)
      fun item => ∀ p ∈ item, p.WellFormed true true none := by
  refine (reads_at? _).bind fun found _ => ?_
  cases found with
  | true => exact agrees_none
  | false => exact (reads_weaken (reads_patternElement hn r' hr)).bind fun p hp => agrees_some hp

theorem reads_patternProperty : hn.Gives c patternProperty PatternProperty.WellFormed := by
  have hproperty {key : String} (hkey : isName key = true) {value : Pattern}
      (hvalue : value.isRest = false ∧ value.WellFormed true true (some key)) :
      (PatternProperty.mk key value).WellFormed :=
    ⟨by rw [hvalue.1, if_neg Bool.false_ne_true]; exact fun _ => hkey, hvalue.2, trivial⟩
  have hvalue {key : String} (hkey : isName key = true) {target : Pattern}
      (htarget : target.WellFormed true false (some key)) : hn.Gives true (fun x => do
        return (⟨key, ← withDefault x target⟩ : PatternProperty)) PatternProperty.WellFormed :=
    (reads_withDefault hn htarget).bind fun value hvalue => agrees_pure (hproperty hkey hvalue)
  have htarget := reads_below hn.bindingTarget
  refine reads_eat_bind nofun ?_ ?_
  · exact htarget.bind fun target htarget => agrees_pure ⟨rfl, ⟨rfl, htarget⟩, trivial⟩
  · refine reads_propertyName.bind fun key hkey => reads_eat_bind nofun ?_ ?_
    · exact htarget.bind fun target htarget => hvalue hkey (htarget.keyed (some key))
    · have hname : (Pattern.ident key).WellFormed true false (some key) := ⟨hkey, .inl rfl⟩
      exact hvalue hkey hname

theorem reads_bindingTarget : hn.Gives c bindingTarget (·.WellFormed true false none) := by
  refine reads_kind_bind fun k hk => ?_
  split
  · refine reads_advance_bind nofun ((reads_commaItems fun _ => reads_patternItem hn).bind
      fun items hitems => ?_)
    exact agrees_pure (patternItemsWellFormed_of_forall hitems)
  · have hproperty {r'} (hr : Left r true r') := reads_patternProperty (c := false) (hn.within hr)
    refine reads_advance_bind nofun ((reads_commaItems fun _ hr => reads_weaken (hproperty hr)).bind
      fun properties hproperties => ?_)
    exact agrees_pure (patternPropertiesWellFormed_of_forall hproperties)
  · exact reads_ahead (reads_name.bind fun name hname => agrees_pure ⟨hname.1, .inr hname.2⟩)

/-! ## Functions of the grammar -/

theorem reads_block : hn.Gives c block stmtsWellFormed := by
  refine reads_punct.then ?_
  refine (reads_repeated (P := Stmt.WellFormed) fun r' hr => ?_).bind fun body hbody => ?_
  · refine reads_kind_bind fun k _ => ?_
    split
    · exact reads_ahead agrees_none
    · exact reads_refuse
    · exact reads_ahead ((hn.statement r' hr).bind fun stmt hstmt => agrees_some hstmt)
  · exact reads_punct.then (agrees_pure (stmtsWellFormed_iff.mpr hbody))

theorem reads_params : hn.Gives c params paramsWellFormed := by
  have hparam {r'} (hr : Left r true r') := reads_patternElement hn r' hr
  refine reads_punct.then ?_
  exact (reads_commaItems fun _ hr => reads_weaken (hparam hr)).mono
    fun _ => paramsWellFormed_iff.mpr

theorem reads_functionRest {name} (hname : ∀ w ∈ name, BindingName w) :
    hn.Gives c (functionRest · name)
      fun f => f.WellFormed ∧ f.name = name ∧ f.arrow = false := by
  refine (reads_params hn).bind fun params hparams => ?_
  refine (reads_block hn).bind fun body hbody => ?_
  exact agrees_pure ⟨⟨hname, hparams, hbody⟩, rfl, rfl⟩

theorem reads_functionExpr : hn.Gives c functionExpr (·.WellFormed false) := by
  have hrest {c} (name : Option String) (hname : ∀ w ∈ name, BindingName w) :
      hn.Gives c (fun x => do return Expr.function (← functionRest x name)) (·.WellFormed false) :=
    (reads_functionRest hn hname).bind fun f hf => agrees_pure hf.1
  refine reads_kind_bind fun k _ => reads_ahead ?_
  split
  · exact (reads_name.map fun name hname => by simpa using hname).bind hrest
  · exact (agrees_pure (by simp)).bind hrest

theorem reads_arrow : hn.Gives c arrow (·.WellFormed false) := by
  have hbody (params : List Pattern) (hparams : paramsWellFormed params) :
      hn.Gives true (fun x => do
        punct .arrow
        let body ← if ← atPunct .lBrace then pure (.block (← block x))
          else pure (.expr (← x.assignment))
        return Expr.function ⟨none, params, body, true⟩) (·.WellFormed false) := by
    refine reads_punct.then ?_
    refine (reads_at? _).bind fun found _ => ?_
    cases found with
    | true => exact (reads_block hn).bind fun body hbody => agrees_pure ⟨rfl, hparams, hbody⟩
    | false =>
      exact (reads_below hn.assignment).bind fun value hvalue =>
        agrees_pure ⟨rfl, hparams, rfl, hvalue⟩
  refine (reads_at? _).bind fun found _ => ?_
  cases found with
  | true => exact (reads_params hn).bind hbody
  | false =>
    exact reads_name.bind fun name hname => hbody [.ident name] ⟨⟨hname.1, .inr hname.2⟩, trivial⟩

/-! ## Expressions of the grammar -/

theorem reads_element {r'} (hr : Left r true r') :
    T.Keeps r' false (element x) (element y) (·.WellFormed true) := by
  have hspread := reads_below (hn.within hr).assignment
  refine reads_eat_bind nofun (reads_weaken ?_) (reads_weaken ?_)
  · exact hspread.bind fun e he => agrees_pure ⟨rfl, he⟩
  · exact (hn.assignment r' hr).mono fun e he => he.asElement

theorem reads_propertyKey : hn.Gives c propertyKey PropertyKey.WellFormed := by
  refine reads_kind_bind fun k hk => ?_
  split
  · exact reads_advance_bind nofun (agrees_pure hk)
  · exact reads_advance_bind nofun (agrees_pure trivial)
  · exact reads_advance_bind nofun (agrees_pure trivial)
  · refine reads_advance_bind nofun ((reads_below hn.assignment).bind fun key hkey => ?_)
    exact reads_punct.then (agrees_pure hkey)
  · exact reads_refuse

theorem reads_property : hn.Gives c property Property.WellFormed := by
  refine (reads_propertyKey hn).bind fun key hkey => reads_eat_bind nofun ?_ ?_
  · refine (reads_below hn.assignment).bind fun value hvalue => ?_
    exact agrees_pure ⟨⟨hkey, hvalue⟩, trivial⟩
  · cases key with
    | name name => exact agrees_pure ⟨⟨name, hkey, rfl, rfl⟩, trivial⟩
    | _ => exact reads_refuse

theorem reads_primary : hn.Gives c primary (·.WellFormed false) := by
  refine reads_kind_bind fun k hk => ?_
  split
  · exact reads_advance_bind nofun (agrees_pure hk)
  · exact reads_advance_bind nofun (agrees_pure trivial)
  · refine reads_advance_bind nofun ((reads_below hn.expression).bind fun e he => ?_)
    exact reads_punct.then (agrees_pure he)
  · refine reads_advance_bind nofun ((reads_commaItems fun _ => reads_element hn).bind
      fun items hitems => ?_)
    exact agrees_pure (exprsWellFormed_iff.mpr hitems)
  · have hproperty {r'} (hr : Left r true r') := reads_property (c := false) (hn.within hr)
    refine reads_advance_bind nofun ((reads_commaItems fun _ hr => reads_weaken (hproperty hr)).bind
      fun properties hproperties => ?_)
    exact agrees_pure (propertiesWellFormed_of_forall hproperties)
  iterate 3 · exact reads_advance_bind nofun (agrees_pure trivial)
  · exact reads_advance_bind nofun (reads_functionExpr hn)
  · exact reads_ahead (reads_name.bind fun name hname => agrees_pure hname)
  · exact reads_refuse

theorem reads_access? : T.Strides r (access? x) (access? y) Suffix.WellFormed := by
  refine reads_kind_bind fun k _ => ?_
  split
  · exact reads_advance_bind nofun (reads_propertyName.bind fun name hname => agrees_some hname)
  · refine reads_advance_bind nofun ((reads_below hn.expression).bind fun i hi => ?_)
    exact reads_punct.then (agrees_some hi)
  · exact reads_ahead agrees_none

theorem reads_arguments : hn.Gives c arguments (exprsWellFormed true) := by
  refine reads_punct.then ?_
  exact (reads_commaItems fun _ => reads_element hn).mono fun _ => exprsWellFormed_iff.mpr

theorem reads_suffix? : T.Strides r (suffix? x) (suffix? y) Suffix.WellFormed := by
  refine (reads_at? _).bind fun found _ => ?_
  cases found with
  | true => exact (reads_arguments hn).bind fun args hargs => agrees_some hargs
  | false => exact reads_access? hn

theorem reads_newExpr : hn.Gives c newExpr (·.WellFormed false) := by
  refine (reads_primary hn).bind fun first hfirst => ?_
  refine (reads_repeated fun _ hr => reads_access? (hn.within hr)).bind fun more hmore => ?_
  have hcallee := Suffix.wellFormed_foldl hfirst hmore
  refine (reads_at? _).bind fun found _ => ?_
  cases found with
  | true => exact (reads_arguments hn).bind fun args hargs => agrees_pure ⟨hcallee, hargs⟩
  | false => exact agrees_pure ⟨hcallee, trivial⟩

theorem reads_suffixed : hn.Gives c suffixed (·.WellFormed false) := by
  have hmore (first : Expr) (hfirst : first.WellFormed false) : hn.Gives true (fun x => do
        let more ← Parsing.repeated (suffix? x)
        return more.foldl Suffix.apply first) (·.WellFormed false) :=
    (reads_repeated fun _ hr => reads_suffix? (hn.within hr)).bind fun more hmore =>
      agrees_pure (Suffix.wellFormed_foldl hfirst hmore)
  exact reads_eat_bind nofun ((reads_newExpr hn).bind hmore) ((reads_primary hn).bind hmore)

theorem reads_updated : hn.Gives c updated (·.WellFormed false) := by
  refine (reads_suffixed hn).bind fun e he => ?_
  refine reads_kind_bind fun k _ => ?_
  split
  · rename_i hop
    exact reads_advance_bind (by rintro rfl; cases hop) (agrees_pure he)
  · exact reads_ahead (agrees_pure he)

theorem reads_unary : hn.Gives c unary (·.WellFormed false) := by
  have hargument := reads_below hn.unary
  refine reads_kind_bind fun k _ => ?_
  split
  · rename_i hop
    refine reads_advance_bind (by rintro rfl; cases hop) ?_
    exact hargument.bind fun e he => agrees_pure he
  · refine reads_ahead (reads_kind_bind fun k _ => ?_)
    split
    · rename_i hop
      refine reads_advance_bind (by rintro rfl; cases hop) ?_
      exact hargument.bind fun e he => agrees_pure he
    · exact reads_ahead (reads_updated hn)

theorem reads_operation? (least : Nat) :
    T.Strides r (operation? x least) (operation? y least) (·.2.WellFormed false) := by
  refine reads_kind_bind fun k _ => ?_
  split
  · exact reads_ahead agrees_none
  · rename_i hop
    split
    · exact reads_ahead agrees_none
    · refine reads_advance_bind (by rintro rfl; cases hop) ?_
      exact (reads_below (hn.binary _)).bind fun e he => agrees_some he

theorem reads_binary (least : Nat) : hn.Gives c (binary · least) (·.WellFormed false) := by
  refine (reads_unary hn).bind fun first hfirst => ?_
  refine (reads_repeated fun _ hr => reads_operation? (hn.within hr) least).bind
    fun more hmore => agrees_pure ?_
  induction more generalizing first with
  | nil => exact hfirst
  | cons operation more ih =>
    obtain ⟨hoperation, hrest⟩ := List.forall_mem_cons.mp hmore
    exact ih _ ⟨hfirst, hoperation⟩ hrest

theorem reads_conditional : hn.Gives c conditional (·.WellFormed false) := by
  have hbranch := reads_below hn.assignment
  refine (reads_binary hn 0).bind fun test htest => ?_
  refine reads_eat_bind nofun ?_ (agrees_pure htest)
  refine hbranch.bind fun consequent hconsequent => reads_punct.then ?_
  exact hbranch.bind fun alternate halternate => agrees_pure ⟨htest, hconsequent, halternate⟩

omit hn in
/-- End tokens are no arrows. -/
theorem isArrowHead_append {e : Token} (he : e.kind = .eof) {m : Nat} :
    isArrowHead (toks ++ List.replicate m e) = isArrowHead toks := by
  have hhead (toks : List Token) : (toks ++ List.replicate m e).head?.any
      (·.kind == .punct .arrow) = toks.head?.any (·.kind == .punct .arrow) := by
    cases toks <;> cases m <;> simp [he, List.replicate_succ]
  have hcloses (depth : Nat) :
      closesBeforeArrow depth (toks ++ List.replicate m e) = closesBeforeArrow depth toks := by
    induction toks generalizing depth with
    | nil => cases m <;> simp [closesBeforeArrow, he, List.replicate_succ]
    | cons t toks ih => simp only [List.cons_append, closesBeforeArrow, hhead, ih]
  cases toks with
  | nil => cases m <;> simp [isArrowHead, he, List.replicate_succ]
  | cons t toks => simp only [List.cons_append, isArrowHead, hhead, ← hcloses]

theorem reads_assignment : hn.Gives c assignment (·.WellFormed false) := by
  refine agrees_get_bind fun s _ hst => ?_
  obtain ⟨m, rfl⟩ := hst.same
  rw [isArrowHead_append hst.ended]
  split
  · exact reads_arrow hn
  · refine (reads_conditional hn).bind fun target htarget => ?_
    refine reads_kind_bind fun k _ => ?_
    split
    · exact reads_ahead (agrees_pure htarget)
    · rename_i op hop
      cases hassignable : isAssignable op target with
      | true =>
        refine reads_advance_bind (by rintro rfl; cases hop) ?_
        refine (reads_below hn.assignment).bind fun value hvalue => ?_
        exact agrees_pure ⟨hassignable, htarget, hvalue⟩
      | false =>
        exact Agrees.bind (T := fun _ => T.Streams r true) (P := fun _ => False) reads_refuse
          fun _ hfalse => hfalse.elim

theorem reads_expression : hn.Gives c expression (·.WellFormed false) := by
  refine (reads_commaItemsOne (reads_assignment hn) fun _ hr =>
    reads_assignment (hn.within hr)).bind fun items ⟨hsome, hitems⟩ => ?_
  split
  · exact agrees_pure (hitems _ List.mem_cons_self)
  · rename_i hne
    refine agrees_pure ⟨?_, exprsWellFormed_iff.mpr hitems⟩
    match items, hsome, hne with
    | [only], _, hne => exact absurd rfl (hne only)
    | _ :: _ :: rest, _, _ => simp

/-! ## Statements of the grammar -/

omit hn in
theorem reads_varKind : T.Reads r c varKind varKind fun _ => True := by
  refine reads_kind_bind fun k _ => ?_
  split
  · rename_i hkind
    exact reads_advance_bind (by rintro rfl; cases hkind) (agrees_pure trivial)
  · exact reads_refuse

theorem reads_declarator : hn.Gives c declarator Declarator.WellFormed := by
  refine (reads_bindingTarget hn).bind fun id hid => ?_
  refine reads_eat_bind nofun ?_ (agrees_pure ⟨hid, trivial, trivial⟩)
  exact (reads_assignment hn).bind fun init hinit => agrees_pure ⟨hid, hinit, trivial⟩

theorem reads_declarators :
    hn.Gives c declarators fun decls => decls ≠ [] ∧ declaratorsWellFormed decls :=
  (reads_commaItemsOne (reads_declarator hn) fun _ hr => reads_declarator (hn.within hr)).mono
    fun _ h => ⟨h.1, declaratorsWellFormed_of_forall h.2⟩

theorem reads_test : hn.Gives c test (·.WellFormed false) := by
  refine reads_punct.then ?_
  exact (reads_below hn.expression).bind fun e he => reads_punct.then (agrees_pure he)

theorem reads_ifStmt : hn.Gives c ifStmt Stmt.WellFormed := by
  have hbranch := reads_below hn.statement
  have helse := hbranch.map (f := some) (Q := elseWellFormed) fun _ h => h
  refine reads_word.then ?_
  refine (reads_test hn).bind fun test htest => ?_
  refine hbranch.bind fun consequent hconsequent => ?_
  refine reads_eat_bind nofun ?_ (agrees_pure ⟨htest, hconsequent, trivial⟩)
  exact helse.bind fun alternate halternate => agrees_pure ⟨htest, hconsequent, halternate⟩

omit hn in
theorem reads_forEachKind? : T.Reads r true forEachKind? forEachKind? fun _ => True :=
  reads_eat_bind nofun (agrees_pure trivial)
    (reads_eat_bind nofun (agrees_pure trivial) (agrees_pure trivial))

theorem reads_forEachRest (each : ForEachKind) {kind pattern}
    (h : pattern.WellFormed kind.isSome false none) :
    hn.Gives c (forEachRest · each kind pattern) Stmt.WellFormed := by
  refine (reads_assignment hn).bind fun right hright => ?_
  refine reads_punct.then ?_
  exact (reads_below hn.statement).bind fun body hbody => agrees_pure ⟨h, hright, hbody⟩

theorem reads_expressionBefore (close : Punct) :
    hn.Gives c (expressionBefore · close) optionWellFormed := by
  have hclose {c} (e : Option Expr) (he : optionWellFormed e) :
      hn.Gives c (fun _ => do punct close; return e) optionWellFormed :=
    reads_punct.then (agrees_pure he)
  refine (reads_at? _).bind fun found _ => ?_
  cases found with
  | true => exact hclose none trivial
  | false =>
    exact ((reads_expression hn).map (f := some) (Q := optionWellFormed) fun _ h => h).bind hclose

theorem reads_forRest {init} (h : initWellFormed init) :
    hn.Gives c (forRest · init) Stmt.WellFormed := by
  refine reads_punct.then ?_
  refine (reads_expressionBefore hn _).bind fun test htest => ?_
  refine (reads_expressionBefore hn _).bind fun update hupdate => ?_
  exact (reads_below hn.statement).bind fun body hbody => agrees_pure ⟨h, htest, hupdate, hbody⟩

theorem reads_forDeclared : hn.Gives c forDeclared Stmt.WellFormed := by
  refine reads_varKind.bind fun kind _ => ?_
  refine agrees_get_bind fun saved _ hsaved => ?_
  refine (reads_bindingTarget hn).bind fun pattern hpattern => ?_
  refine reads_forEachKind?.bind fun each _ => ?_
  cases each with
  | some each => exact reads_forEachRest hn each hpattern
  | none =>
    refine (agrees_set hsaved).then ?_
    exact (reads_declarators hn).bind fun decls hdecls => reads_forRest hn hdecls

theorem reads_forAssigned : hn.Gives c forAssigned Stmt.WellFormed := by
  refine (reads_expression hn).bind fun e he => ?_
  refine reads_forEachKind?.bind fun each _ => ?_
  cases each with
  | none => exact reads_forRest hn he
  | some each =>
    simp only
    split
    · rename_i pattern hpattern
      exact reads_forEachRest hn each (Expr.WellFormed.toPattern e he hpattern)
    · exact reads_refuse

theorem reads_forStmt : hn.Gives c forStmt Stmt.WellFormed := by
  refine reads_word.then (reads_punct.then ?_)
  refine reads_kind_bind fun k _ => reads_ahead ?_
  split
  · exact reads_forDeclared hn
  · refine (reads_at? _).bind fun found _ => ?_
    cases found with
    | true => exact reads_forRest hn trivial
    | false => exact reads_forAssigned hn

theorem reads_returned? : hn.Gives true returned? optionWellFormed := by
  refine reads_kind_bind fun k _ => reads_ahead ?_
  split
  · exact agrees_pure trivial
  · exact agrees_pure trivial
  · exact agrees_pure trivial
  · exact (reads_expression hn).bind fun e he => agrees_pure he

theorem reads_varStmt : hn.Gives c varStmt Stmt.WellFormed := by
  refine reads_varKind.bind fun kind _ => ?_
  refine (reads_declarators hn).bind fun decls hdecls => ?_
  exact reads_endStatement.then (agrees_pure hdecls)

theorem reads_functionStmt : hn.Gives c (fun x => do
    let name ← name
    return Stmt.function (← functionRest x (some name))) Stmt.WellFormed := by
  refine reads_name.bind fun name hname => ?_
  refine (reads_functionRest hn (by simpa using hname)).bind fun f hf => agrees_pure ?_
  obtain ⟨fname, params, body, arrow⟩ := f
  obtain ⟨hf, rfl, rfl⟩ := hf
  exact ⟨rfl, hf⟩

theorem reads_statement : hn.Gives c statement Stmt.WellFormed := by
  have hword {k stmt} (hk : k ≠ .eof) (h : stmt.WellFormed) :
      Agrees (T.Ahead r c (some k)) (fun _ => T.Streams r true) T.Errors (wordStmt stmt)
        (wordStmt stmt) Stmt.WellFormed :=
    reads_advance_bind hk (reads_endStatement.then (agrees_pure h))
  have hbody := reads_below hn.statement
  refine reads_kind_bind fun k _ => ?_
  split
  · exact reads_advance_bind nofun (agrees_pure trivial)
  · exact reads_ahead ((reads_block hn).bind fun body hbody => agrees_pure hbody)
  iterate 3 · exact reads_ahead (reads_varStmt hn)
  · exact reads_advance_bind nofun (reads_functionStmt hn)
  · refine reads_advance_bind nofun ((reads_returned? hn).bind fun value hvalue => ?_)
    exact reads_endStatement.then (agrees_pure hvalue)
  · exact reads_ahead (reads_ifStmt hn)
  · exact reads_ahead (reads_forStmt hn)
  · refine reads_advance_bind nofun ((reads_test hn).bind fun test htest => ?_)
    exact hbody.bind fun body hbody => agrees_pure ⟨htest, hbody⟩
  · exact hword nofun trivial
  · exact hword nofun trivial
  · refine reads_ahead ((reads_expression hn).bind fun e he => ?_)
    exact reads_endStatement.then (agrees_pure he)

theorem reads_program : T.Keeps r c (program x) (program y) stmtsWellFormed := by
  refine (reads_repeated (P := Stmt.WellFormed) fun _ hr => ?_).mono
    fun _ => stmtsWellFormed_iff.mpr
  refine (reads_at? _).bind fun found _ => ?_
  cases found with
  | true => exact agrees_none
  | false => exact (reads_statement (hn.within hr)).bind fun stmt hstmt => agrees_some hstmt

omit hn in
/-- Where no token is left that could be read first, no nested parser is called. -/
theorem reads_nil : x.Reads T [] y := by
  have hnone {r' : List Token} (hr : Left [] true r') : False := Nat.not_lt_zero _ (hr.2 rfl)
  exact ⟨fun _ hr => (hnone hr).elim, fun _ hr => (hnone hr).elim, fun _ _ hr => (hnone hr).elim,
    fun _ hr => (hnone hr).elim, fun _ hr => (hnone hr).elim, fun _ hr => (hnone hr).elim⟩

omit hn in
/-- As many levels of nesting as there are tokens suffice: the parsers below them are never
called. -/
theorem reads_nestedOver {depth depth' : Nat} (hdepth : r.length ≤ depth)
    (hdepth' : r.length ≤ depth') : (nestedOver x depth).Reads T r (nestedOver y depth') := by
  induction depth generalizing r depth' with
  | zero =>
    obtain rfl := List.eq_nil_of_length_eq_zero (Nat.le_zero.mp hdepth)
    exact reads_nil
  | succ depth ih =>
    cases depth' with
    | zero =>
      obtain rfl := List.eq_nil_of_length_eq_zero (Nat.le_zero.mp hdepth')
      exact reads_nil
    | succ depth' =>
      have hn r' (hr : Left r true r') : (nestedOver x depth).Reads T r' (nestedOver y depth') := by
        have := hr.2 rfl
        exact ih (by omega) (by omega)
      exact ⟨fun r' hr => reads_bindingTarget (hn r' hr), fun r' hr => reads_unary (hn r' hr),
        fun least r' hr => reads_binary (hn r' hr) least, fun r' hr => reads_assignment (hn r' hr),
        fun r' hr => reads_expression (hn r' hr), fun r' hr => reads_statement (hn r' hr)⟩

omit hn in
/-- However deep phrases are nested, they are read as well-formed trees. -/
theorem reads_nested {depth : Nat} (hdepth : r.length ≤ depth) :
    (nested depth).Reads T r (nested depth) :=
  nested_eq depth ▸ reads_nestedOver hdepth hdepth

end Grammar

/-! ## Sources -/

theorem ofParts_wellFormed {m k hm hk} : (Literal.num (.ofParts false m k hm hk)).WellFormed := by
  unfold Number.Double.ofParts
  split
  · exact .inl ⟨_, rfl⟩
  · exact .inr rfl

theorem ofLexeme_wellFormed (text : List Char) : (Literal.num (.ofLexeme text)).WellFormed := by
  unfold Number.Double.ofLexeme
  cases Number.Decimal.ofText? text with
  | none => exact .inl ⟨_, rfl⟩
  | some d =>
    show (Literal.num (Number.Double.ofDecimal false d)).WellFormed
    simp only [Number.Double.ofDecimal, Number.Double.ofRatio]
    split
    · exact .inl ⟨_, rfl⟩
    · split
      · exact .inr rfl
      · split <;> exact ofParts_wellFormed

theorem isName_takeWhile {c} (hc : startsName c = true) (rest : List Char) :
    isName (String.ofList (c :: rest.takeWhile continuesName)) = true :=
  isName_iff.mpr ⟨c, _, String.toList_ofList, hc, fun _ hx => List.mem_takeWhile_imp hx⟩

theorem lexeme_valid {c rest kind n} (h : lexeme c rest = .ok (kind, n)) : kind.Valid := by
  unfold lexeme at h
  split at h
  · cases hbody : stringBody c rest with
    | error e => rw [hbody] at h; cases h
    | ok body => rw [hbody] at h; cases h; trivial
  · split at h
    · cases h
    · split at h
      · rename_i hc
        cases h
        exact isName_takeWhile hc rest
      · split at h
        · split at h
          · cases h; trivial
          · cases h
        · cases h
          exact ofLexeme_wellFormed _

theorem next_valid {c token after} (h : next c = .ok (token, after)) :
    token.kind.Valid ∧ (after = none → token.kind = .eof) := by
  unfold next at h
  split at h
  · cases h
  · split at h
    · cases h
      exact ⟨trivial, fun _ => rfl⟩
    · split at h
      · cases h
      · rename_i hlexeme
        cases h
        exact ⟨lexeme_valid hlexeme, nofun⟩

/-- The tokens of a text are valid, and the last one is its end. -/
theorem tokens_valid {c} (h : tokens c = .ok toks) :
    (∀ t ∈ toks, t.kind.Valid) ∧ ∃ t, toks.getLast? = some t ∧ t.kind = .eof := by
  induction c using tokens.induct generalizing toks with
  | case1 c e hnext =>
    rw [tokens_eq, hnext] at h
    cases h
  | case2 c token hnext =>
    rw [tokens_eq, hnext] at h
    cases h
    exact ⟨by simpa using (next_valid hnext).1, token, rfl, (next_valid hnext).2 rfl⟩
  | case3 c token after hnext e hrest ih =>
    rw [tokens_eq, hnext] at h
    simp only [hrest] at h
    cases h
  | case4 c token after hnext rest hrest ih =>
    rw [tokens_eq, hnext] at h
    simp only [hrest] at h
    cases h
    obtain ⟨hvalid, t, ht, hk⟩ := ih hrest
    exact ⟨List.forall_mem_cons.mpr ⟨(next_valid hnext).1, hvalid⟩,
      t, by simp [List.getLast?_cons, ht], hk⟩

/-- From tokens of a class a well-formed script is read, or reading fails at one of them. -/
theorem Program.reads_ofTokens (h : ∀ t ∈ toks, T.Has t)
    (hlast : ∃ t, toks.getLast? = some t ∧ t.kind = .eof) :
    (∀ program, ofTokens toks = .ok program → stmtsWellFormed program.body) ∧
      ∀ e, ofTokens toks = .error e → ∃ t, T.Has t ∧ e.position = t.position := by
  have hread :=
    Grammar.reads_program (c := false) (Grammar.reads_nested (T := T) (Nat.le_refl toks.length))
  unfold ofTokens
  simp only [StateT.run]
  rcases hread.outcomes (TokenClass.streams_ofTokens h hlast 0) with
    ⟨body, s, -, hrun, -, hbody⟩ | ⟨e, -, hrun, -, -, he⟩
  · rw [hrun]
    refine ⟨fun program hprogram => ?_, fun _ hfailed => by cases hfailed⟩
    cases hprogram
    exact hbody
  · rw [hrun]
    refine ⟨fun _ hread => (by cases hread), fun e' he' => ?_⟩
    cases he'
    exact he

/-- The tokens that a text can have. -/
def TokenClass.valids : TokenClass := ⟨fun t => t.kind.Valid, id⟩

theorem Program.wellFormed_of_ofSource {source program}
    (h : Program.ofSource source = .ok program) : stmtsWellFormed program.body := by
  unfold Program.ofSource at h
  split at h
  · cases h
  · rename_i toks hscan
    split at h
    · cases h
    · rename_i program' hparse
      cases h
      exact (Program.reads_ofTokens (T := .valids) (tokens_valid hscan).1 (tokens_valid hscan).2).1
        _ hparse

end IndicatorCompiler.Script
