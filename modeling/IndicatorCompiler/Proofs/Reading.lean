import IndicatorCompiler.Proofs.Succeeds
import IndicatorCompiler.Script.Program
import Mathlib.Data.List.Forall2

/-!
# Reading tokens

What the small parsers of the script do with the tokens in front of them, and how repetitions read
several phrases in a row.  `Spans s ks s'` says that `s` begins with tokens of the kinds `ks` and
that `s'` is what follows them.
-/

namespace IndicatorCompiler.Parsing

/-! ## Repetition -/

section

variable {σ ε α : Type} [Remaining σ]

/-- A step reads these values one after another, and something of the stream for each. -/
inductive Steps (step : Parser σ ε (Option α)) : σ → List α → σ → Prop
  | done (s : σ) : Steps step s [] s
  | more {s s₁ s' a as} (first : Succeeds step s (some a) s₁)
      (shorter : Remaining.remaining s₁ < Remaining.remaining s) (rest : Steps step s₁ as s') :
      Steps step s (a :: as) s'

variable {step : Parser σ ε (Option α)} {s s₁ s' : σ} {a : α} {as : List α}

theorem Steps.snoc (h : Steps step s as s₁) (last : Succeeds step s₁ (some a) s')
    (shorter : Remaining.remaining s' < Remaining.remaining s₁) : Steps step s (as ++ [a]) s' := by
  induction h with
  | done s => exact .more last shorter (.done s')
  | more first hlt _ ih => exact .more first hlt (ih last shorter)

/-- Steps of one parser are steps of another that reads every value in the same way. -/
theorem Steps.mono {step' : Parser σ ε (Option α)} (h : Steps step s as s')
    (hstep : ∀ {s a s'}, Succeeds step s (some a) s' → Succeeds step' s (some a) s') :
    Steps step' s as s' := by
  induction h with
  | done s => exact .done s
  | more first hlt _ ih => exact .more (hstep first) hlt ih

/-- The fuel outlasts the stream, so the repetition ends where the step gives nothing. -/
theorem Steps.repeatWithin {fuel} (h : Steps step s as s') (ended : Succeeds step s' none s')
    (hfuel : Remaining.remaining s < fuel) : Succeeds (repeatWithin step fuel) s as s' := by
  induction h generalizing fuel with
  | done s =>
    obtain ⟨fuel, rfl⟩ : ∃ n, fuel = n + 1 := ⟨fuel - 1, by omega⟩
    rw [Parsing.repeatWithin, ended.bind_iff]
    simp
  | more first hlt _ ih =>
    obtain ⟨fuel, rfl⟩ : ∃ n, fuel = n + 1 := ⟨fuel - 1, by omega⟩
    rw [Parsing.repeatWithin, first.bind_iff]
    simp only
    rw [(ih ended (by omega)).bind_iff]
    simp

theorem Steps.repeated (h : Steps step s as s') (ended : Succeeds step s' none s') :
    Succeeds (repeated step) s as s' := by
  cases h with
  | done =>
    rw [Parsing.repeated, ended.bind_iff]
    simp
  | @more _ s₁ _ a as first hlt rest =>
    have hbudget : Succeeds (budget : Parser σ ε Nat) s₁ (Remaining.remaining s₁ + 1) s₁ := by
      simp [budget]
    rw [Parsing.repeated, first.bind_iff]
    simp only
    rw [hbudget.bind_iff, (rest.repeatWithin ended (Nat.lt_succ_self _)).bind_iff]
    simp

/-- The step of `itemsOne`: an item behind a separator. -/
def separated (separator : Parser σ ε Bool) (item : Parser σ ε α) : Parser σ ε (Option α) := do
  if ← separator then return some (← item)
  return none

omit [Remaining σ] in
theorem separated_some {separator : Parser σ ε Bool} {item : Parser σ ε α}
    (between : Succeeds separator s true s₁) (read : Succeeds item s₁ a s') :
    Succeeds (separated separator item) s (some a) s' := by
  rw [separated, between.bind_iff]
  simp only [if_true]
  rw [read.bind_iff]
  simp

/-- One item, and then the items behind separators. -/
theorem itemsOne_of_steps {separator : Parser σ ε Bool} {item : Parser σ ε α}
    (first : Succeeds item s a s₁) (more : Steps (separated separator item) s₁ as s')
    (ended : Succeeds separator s' false s') :
    Succeeds (itemsOne separator item) s (a :: as) s' := by
  have hended : Succeeds (separated separator item) s' none s' := by
    rw [separated, ended.bind_iff]
    simp
  have hmore := more.repeated hended
  unfold separated at hmore
  rw [itemsOne, first.bind_iff, hmore.bind_iff]
  simp

/-- Items are read one after another up to an end. -/
inductive ItemSteps (atEnd separator : Parser σ ε Bool) (item : Parser σ ε α) :
    σ → List α → σ → Prop
  | done {s : σ} (ended : Succeeds atEnd s true s) : ItemSteps atEnd separator item s [] s
  | last {s s' : σ} {a} (going : Succeeds atEnd s false s) (read : Succeeds item s a s')
      (ended : Succeeds separator s' false s') : ItemSteps atEnd separator item s [a] s'
  | more {s s₁ s₂ s' a as} (going : Succeeds atEnd s false s) (read : Succeeds item s a s₁)
      (separated : Succeeds separator s₁ true s₂)
      (shorter : Remaining.remaining s₂ < Remaining.remaining s)
      (rest : ItemSteps atEnd separator item s₂ as s') :
      ItemSteps atEnd separator item s (a :: as) s'

variable {atEnd separator : Parser σ ε Bool} {item : Parser σ ε α}

theorem ItemSteps.itemsWithin {fuel : Nat} (h : ItemSteps atEnd separator item s as s')
    (hfuel : Remaining.remaining s < fuel) :
    Succeeds (itemsWithin atEnd separator item fuel) s as s' := by
  induction h generalizing fuel with
  | done ended =>
    obtain ⟨fuel, rfl⟩ : ∃ n, fuel = n + 1 := ⟨fuel - 1, by omega⟩
    rw [Parsing.itemsWithin, ended.bind_iff]
    simp
  | last going read ended =>
    obtain ⟨fuel, rfl⟩ : ∃ n, fuel = n + 1 := ⟨fuel - 1, by omega⟩
    rw [Parsing.itemsWithin, going.bind_iff]
    simp only [Bool.false_eq_true, if_false]
    rw [read.bind_iff, ended.bind_iff]
    simp
  | more going read separated hlt _ ih =>
    obtain ⟨fuel, rfl⟩ : ∃ n, fuel = n + 1 := ⟨fuel - 1, by omega⟩
    rw [Parsing.itemsWithin, going.bind_iff]
    simp only [Bool.false_eq_true, if_false]
    rw [read.bind_iff, separated.bind_iff]
    simp only [if_true]
    rw [(ih (by omega)).bind_iff]
    simp

theorem ItemSteps.items (h : ItemSteps atEnd separator item s as s') :
    Succeeds (items atEnd separator item) s as s' := by
  have hbudget : Succeeds (budget : Parser σ ε Nat) s (Remaining.remaining s + 1) s := by
    simp [budget]
  rw [Parsing.items, hbudget.bind_iff]
  exact h.itemsWithin (Nat.lt_succ_self _)

end

end IndicatorCompiler.Parsing

namespace IndicatorCompiler.Script

variable {s s' : Stream} {k : Kind} {ks : List Kind}

/-! ## Spans of tokens -/

/-- Tokens of these kinds lead from `s` to `s'`. -/
def Spans (s : Stream) (ks : List Kind) (s' : Stream) : Prop :=
  ∃ toks : List Token, s.rest = toks ++ s'.rest ∧ toks.map (·.kind) = ks ∧ s'.ending = s.ending

@[simp] theorem spans_nil_iff : Spans s [] s' ↔ s' = s := by
  constructor
  · rintro ⟨toks, hrest, hnil, hending⟩
    obtain rfl : toks = [] := by simpa using hnil
    obtain ⟨rest, ending⟩ := s
    obtain ⟨rest', ending'⟩ := s'
    simp_all
  · rintro rfl
    exact ⟨[], rfl, rfl, rfl⟩

theorem spans_cons_iff : Spans s (k :: ks) s' ↔ s.rest ≠ [] ∧ s.current.kind = k ∧
    Spans s.tail ks s' := by
  constructor
  · rintro ⟨toks, hrest, hkinds, hending⟩
    obtain ⟨t, toks, rfl, rfl, htoks⟩ := List.map_eq_cons_iff.mp hkinds
    refine ⟨by simp [hrest], by simp [Stream.current, hrest], toks, ?_, htoks, hending⟩
    simp [Stream.tail, hrest]
  · rintro ⟨hne, rfl, toks, hrest, rfl, hending⟩
    obtain ⟨rest, ending⟩ := s
    cases rest with
    | nil => exact absurd rfl hne
    | cons t rest => exact ⟨t :: toks, congrArg (t :: ·) hrest, rfl, hending⟩

theorem spans_append_iff {s'' ks'} : Spans s (ks ++ ks') s'' ↔ ∃ s', Spans s ks s' ∧
    Spans s' ks' s'' := by
  induction ks generalizing s with
  | nil => simp
  | cons k ks ih =>
    rw [List.cons_append, spans_cons_iff]
    simp only [spans_cons_iff, ih]
    constructor
    · rintro ⟨hne, hk, s', hs, hs'⟩
      exact ⟨s', ⟨hne, hk, hs⟩, hs'⟩
    · rintro ⟨s', ⟨hne, hk, hs⟩, hs'⟩
      exact ⟨hne, hk, s', hs, hs'⟩

theorem spans_singleton_iff : Spans s [k] s' ↔ s.rest ≠ [] ∧ s.current.kind = k ∧ s' = s.tail := by
  rw [spans_cons_iff, spans_nil_iff]

theorem Spans.length (h : Spans s ks s') : s.rest.length = ks.length + s'.rest.length := by
  obtain ⟨toks, hrest, rfl, -⟩ := h
  simp [hrest]

theorem Spans.current (h : Spans s (k :: ks) s') : s.current.kind = k := (spans_cons_iff.mp h).2.1

theorem Spans.head? (h : Spans s ks s') (hne : ks ≠ []) : ks.head? = some s.current.kind := by
  cases ks with
  | nil => exact absurd rfl hne
  | cons k ks => rw [List.head?_cons, h.current]

theorem Spans.tail (h : Spans s (k :: ks) s') : Spans s.tail ks s' := (spans_cons_iff.mp h).2.2

/-! ## Small parsers -/

namespace Parser

variable {α β : Type} {s s' : Stream} {b : β} {k : Kind} {u : Unit}

@[simp] theorem kind_iff : Succeeds kind s k s' ↔ k = s.current.kind ∧ s' = s := by
  rw [kind, succeeds_get_bind_iff, succeeds_pure_iff]

@[simp] theorem refuse_iff {expected : Expected} {a : α} : Succeeds (refuse expected) s a s' ↔
    False := by
  simp [refuse]

@[simp] theorem advance_iff : Succeeds advance s u s' ↔ s' = s.tail := by simp [advance]

@[simp] theorem at?_iff {c} : Succeeds (at? k) s c s' ↔ c = (s.current.kind == k) ∧ s' = s := by
  simp [at?, and_comm]

@[simp high] theorem kind_bind_iff {f : Kind → Parser β} :
    Succeeds (kind >>= f) s b s' ↔ Succeeds (f s.current.kind) s b s' :=
  Succeeds.bind_iff (by simp)

@[simp high] theorem advance_bind_iff {f : Unit → Parser β} :
    Succeeds (advance >>= f) s b s' ↔ Succeeds (f ()) s.tail b s' :=
  Succeeds.bind_iff (by simp)

@[simp high] theorem atPunct_bind_iff {p} {f : Bool → Parser β} :
    Succeeds (atPunct p >>= f) s b s' ↔ Succeeds (f (s.current.kind == .punct p)) s b s' :=
  Succeeds.bind_iff (by simp [atPunct])

theorem eat_iff {c} : Succeeds (eat k) s c s' ↔
      c = (s.current.kind == k) ∧ s' = if s.current.kind = k then s.tail else s := by
  rw [eat, Succeeds.bind_iff (by rw [at?_iff]; exact ⟨rfl, rfl⟩)]
  by_cases hk : s.current.kind = k
  · simp [hk, and_comm]
  · have hne : (s.current.kind == k) = false := by simpa using hk
    simp [hk, hne]

theorem eat_of_eq (h : s.current.kind = k) : Succeeds (eat k) s true s.tail := by simp [eat_iff, h]

theorem eat_of_ne (h : s.current.kind ≠ k) : Succeeds (eat k) s false s := by simp [eat_iff, h]

@[simp] theorem punct_iff {p : Punct} :
    Succeeds (punct p) s u s' ↔ s.current.kind = .punct p ∧ s' = s.tail := by
  by_cases hk : s.current.kind = .punct p
  · rw [punct, eatPunct, (eat_of_eq hk).bind_iff]
    simp [hk]
  · rw [punct, eatPunct, (eat_of_ne hk).bind_iff]
    simp [hk]

@[simp] theorem word_iff {w : String} :
    Succeeds (word w) s u s' ↔ s.current.kind = .ident w ∧ s' = s.tail := by
  by_cases hk : s.current.kind = .ident w
  · rw [word, eatWord, (eat_of_eq hk).bind_iff]
    simp [hk]
  · rw [word, eatWord, (eat_of_ne hk).bind_iff]
    simp [hk]

@[simp] theorem name_iff {n : String} :
    Succeeds name s n s' ↔ s.current.kind = .ident n ∧ n ∉ reservedWords ∧ s' = s.tail := by
  rw [name, kind_bind_iff]
  cases hk : s.current.kind with
  | ident m =>
    by_cases hm : m ∈ reservedWords
    · simp only [hm, if_true, refuse_iff, Kind.ident.injEq, false_iff, not_and]
      rintro rfl
      exact absurd hm
    · simp only [hm, if_false, advance_bind_iff, succeeds_pure_iff, Kind.ident.injEq]
      constructor
      · rintro ⟨rfl, rfl⟩
        exact ⟨rfl, hm, rfl⟩
      · rintro ⟨rfl, -, rfl⟩
        exact ⟨rfl, rfl⟩
  | _ => simp

@[simp] theorem propertyName_iff {n : String} :
    Succeeds propertyName s n s' ↔ s.current.kind = .ident n ∧ s' = s.tail := by
  rw [propertyName, kind_bind_iff]
  cases hk : s.current.kind <;> simp [eq_comm, and_comm]

@[simp] theorem endStatement_iff : Succeeds endStatement s u s' ↔
      s' = if s.current.kind = .punct .semicolon then s.tail else s := by
  simp only [endStatement, eatPunct, succeeds_bind_iff, succeeds_pure_iff, eat_iff]
  constructor
  · rintro ⟨_, _, ⟨-, rfl⟩, -, rfl⟩
    rfl
  · rintro rfl
    exact ⟨_, _, ⟨rfl, rfl⟩, trivial, rfl⟩

end Parser

/-! ## Phrases -/

section

variable {α : Type}

/-- However deep phrases may be nested, as long as it is `spare` levels deeper than `ks` needs, and
whatever tokens follow, as long as the first one is a `stop`, the parser reads `ks` as `a` and
nothing more. -/
def ReadsWith (spare : Nat) (parser : Nested → Parser α) (stop : Kind → Prop) (ks : List Kind)
    (a : α) : Prop :=
  ∀ ⦃depth : Nat⦄ ⦃s s' : Stream⦄, ks.length + spare ≤ depth → Spans s ks s' →
    stop s'.current.kind → Succeeds (parser (Grammar.nested depth)) s a s'

/-- With no level to spare. -/
abbrev ReadsBy := @ReadsWith α 0

/-- For a parser that goes down to nested phrases before it has read a token; a token has been read
before it. -/
abbrev ReadsInside := @ReadsWith α 1

variable {parser : Nested → Parser α} {stop stop' : Kind → Prop} {ks : List Kind} {a : α}
  {spare : Nat}

theorem ReadsWith.mono (h : ReadsWith spare parser stop ks a) (hstop : ∀ k, stop' k → stop k) :
    ReadsWith spare parser stop' ks a :=
  fun _ _ _ hdepth hs hk => h hdepth hs (hstop _ hk)

/-- Items with commas between them, which `item` reads up to a comma or, at the end, up to
`close`. -/
inductive ReadsItems (close : Punct) (item : Nested → Parser α) : List Kind → List α → Prop
  | none : ReadsItems close item [] []
  | last {ks : List Kind} {a} (nonempty : ks ≠ []) (opens : ks.head? ≠ some (.punct close))
      (read : ReadsInside item (· = .punct close) ks a) : ReadsItems close item ks [a]
  | more {ks ks' a as} (opens : (ks ++ [Kind.punct .comma]).head? ≠ some (.punct close))
      (read : ReadsInside item (· = .punct .comma) ks a) (rest : ReadsItems close item ks' as) :
      ReadsItems close item (ks ++ Kind.punct .comma :: ks') (a :: as)

variable {close : Punct} {item : Nested → Parser α} {as : List α} {s s' : Stream}
  {kss : List (List Kind)} {e : Expr}

theorem ReadsItems.steps (h : ReadsItems close item ks as) (hcomma : close ≠ .comma) {depth : Nat}
    (hdepth : ks.length < depth) (hs : Spans s ks s')
    (hclose : s'.current.kind = .punct close) :
    Parsing.ItemSteps (Parser.atPunct close) (Parser.eatPunct .comma)
      (item (Grammar.nested depth)) s as s' := by
  induction h generalizing s with
  | none =>
    obtain rfl := spans_nil_iff.mp hs
    exact .done (by simp [Parser.atPunct, hclose])
  | last nonempty opens read =>
    have hopens : s.current.kind ≠ .punct close := by
      rw [hs.head? nonempty] at opens
      exact fun h => opens (congrArg some h)
    refine .last ?_ (read hdepth hs hclose) (Parser.eat_of_ne ?_)
    · simpa [Parser.atPunct] using hopens
    · rw [hclose]
      exact fun h => hcomma (Kind.punct.inj h)
  | @more ks ks' a as opens read rest ih =>
    simp only [List.length_append, List.length_cons] at hdepth
    obtain ⟨s₁, hs₁, hrest⟩ := spans_append_iff.mp hs
    have hopens : s.current.kind ≠ .punct close := by
      have hhead : Spans s (ks ++ [Kind.punct .comma]) s₁.tail :=
        spans_append_iff.mpr ⟨s₁, hs₁, spans_singleton_iff.mpr
          ⟨(spans_cons_iff.mp hrest).1, hrest.current, rfl⟩⟩
      rw [hhead.head? (by simp)] at opens
      exact fun h => opens (congrArg some h)
    refine .more ?_ (read (by omega) hs₁ hrest.current) (Parser.eat_of_eq hrest.current) ?_
      (ih (by omega) hrest.tail)
    · simpa [Parser.atPunct] using hopens
    · have hlong := hs.length
      have hshort := hrest.tail.length
      simp only [List.length_append, List.length_cons] at hlong
      show s₁.tail.rest.length < s.rest.length
      omega

theorem ReadsItems.closed (h : ReadsItems close item ks as) (hcomma : close ≠ .comma) :
    ReadsBy (fun nested => Parser.commaItems close (item nested)) (fun _ => True)
      (ks ++ [.punct close]) as := by
  intro depth s s' hdepth hs _
  simp only [List.length_append, List.length_singleton] at hdepth
  obtain ⟨s₁, hs₁, hclose⟩ := spans_append_iff.mp hs
  obtain ⟨-, hkind, rfl⟩ := spans_singleton_iff.mp hclose
  have hitems := (h.steps hcomma (show ks.length < depth by omega) hs₁ hkind).items
  show Succeeds (Parser.commaItems close (item (Grammar.nested depth))) s as s₁.tail
  rw [Parser.commaItems, hitems.bind_iff,
    (Parser.punct_iff.mpr ⟨hkind, rfl⟩ : Succeeds _ s₁ () s₁.tail).bind_iff]
  simp

/-- The tokens of phrases with commas between them. -/
def commaKinds : List (List Kind) → List Kind
  | [] => []
  | ks :: kss => ks ++ kss.flatMap (Kind.punct .comma :: ·)

@[simp] theorem commaKinds_cons_cons (ks ks' : List Kind) (kss : List (List Kind)) :
    commaKinds (ks :: ks' :: kss) = ks ++ Kind.punct .comma :: commaKinds (ks' :: kss) := by
  simp [commaKinds]

/-- A phrase between commas, also the last one before `close`. -/
structure ItemPhrase (close : Punct) (item : Nested → Parser α) (ks : List Kind) (a : α) :
    Prop where
  nonempty : ks ≠ []
  opens : ks.head? ≠ some (.punct close)
  read : ReadsInside item (fun k => k = .punct .comma ∨ k = .punct close) ks a

theorem readsItems_commaKinds (h : List.Forall₂ (ItemPhrase close item) kss as) :
    ReadsItems close item (commaKinds kss) as := by
  induction h with
  | nil => exact .none
  | @cons ks a kss as first rest ih =>
    cases rest with
    | nil =>
      rw [commaKinds, List.flatMap_nil, List.append_nil]
      exact .last first.nonempty first.opens (first.read.mono fun _ => .inr)
    | cons second rest =>
      rw [commaKinds_cons_cons]
      refine .more ?_ (first.read.mono fun _ => .inl) ih
      rw [List.head?_append_of_ne_nil _ first.nonempty]
      exact first.opens

/-- Behind a phrase comes a comma, or what follows all of them. -/
theorem comma_or_stop (hs : Spans s (kss.flatMap (Kind.punct .comma :: ·)) s')
    (hstop : stop s'.current.kind) : s.current.kind = .punct .comma ∨ stop s.current.kind := by
  cases kss with
  | nil =>
    obtain rfl := spans_nil_iff.mp hs
    exact .inr hstop
  | cons => exact .inl (show Spans s (.punct .comma :: _) s' from hs).current

theorem steps_flatMap_comma
    (h : List.Forall₂ (ReadsBy item fun k => k = .punct .comma ∨ stop k) kss as) {depth : Nat}
    (hdepth : (kss.flatMap (Kind.punct .comma :: ·)).length ≤ depth)
    (hs : Spans s (kss.flatMap (Kind.punct .comma :: ·)) s') (hstop : stop s'.current.kind) :
    Parsing.Steps (Parsing.separated (Parser.eatPunct .comma) (item (Grammar.nested depth))) s as
      s' := by
  induction h generalizing s with
  | nil =>
    obtain rfl := spans_nil_iff.mp hs
    exact .done s'
  | @cons ks a kss as first rest ih =>
    simp only [List.flatMap_cons, List.length_append, List.length_cons] at hdepth
    obtain ⟨s₁, hs₁, hs'⟩ := spans_append_iff.mp hs
    have hread := first (show ks.length ≤ depth by omega) hs₁.tail (comma_or_stop hs' hstop)
    refine .more (Parsing.separated_some (Parser.eat_of_eq hs₁.current) hread) ?_
      (ih (by omega) hs')
    have hlong := hs₁.length
    simp only [List.length_cons] at hlong
    show s₁.rest.length < s.rest.length
    omega

theorem readsBy_itemsOne (stop : Kind → Prop)
    (h : List.Forall₂ (ReadsBy item fun k => k = .punct .comma ∨ stop k) (ks :: kss) (a :: as)) :
    ReadsBy (fun nested => Parsing.itemsOne (Parser.eatPunct .comma) (item nested))
      (fun k => stop k ∧ k ≠ .punct .comma) (commaKinds (ks :: kss)) (a :: as) := by
  intro depth s s' hdepth hs hstop
  cases h with
  | cons first rest =>
    rw [commaKinds, List.length_append] at hdepth
    obtain ⟨s₁, hs₁, hs'⟩ := spans_append_iff.mp hs
    exact Parsing.itemsOne_of_steps (first (by omega) hs₁ (comma_or_stop hs' hstop.1))
      (steps_flatMap_comma rest (by omega) hs' hstop.1) (Parser.eat_of_ne hstop.2)

/-! ### Phrases part by part

One rule for each way in which a parser goes on, so that a phrase is read as its parser is
written. -/

variable {β : Type} {P : Kind → Prop} {k : Kind} {ks' : List Kind} {b : β}

/-- The first token of a phrase has `P`; if the phrase is empty, then what follows it has. -/
def Leading (P : Kind → Prop) : List Kind → (Kind → Prop) → Prop
  | [], stop => ∀ k, stop k → P k
  | k :: _, _ => P k

theorem Leading.current (h : Leading P ks stop) (hs : Spans s ks s')
    (hstop : stop s'.current.kind) : P s.current.kind := by
  cases ks with
  | nil =>
    obtain rfl := spans_nil_iff.mp hs
    exact h _ hstop
  | cons k ks => exact hs.current ▸ h

theorem Leading.append (h : ∀ stop, Leading P ks stop) : Leading P (ks ++ ks') stop := by
  cases ks with
  | nil =>
    cases ks' with
    | nil => exact h stop
    | cons k ks' => exact h (fun _ => True) k trivial
  | cons k ks => exact h stop

theorem ReadsWith.of (h : ReadsBy parser stop ks a) : ReadsWith spare parser stop ks a :=
  fun _ _ _ hdepth => h (Nat.le_of_add_right_le hdepth)

theorem ReadsWith.pure : ReadsWith spare (fun _ => pure a) stop [] a := by
  intro depth s s' _ hs _
  simpa using spans_nil_iff.mp hs

variable {f : Nested → α → Parser β} {g : α → β}

theorem ReadsWith.bind (h : ReadsWith spare parser stop ks a) (hnext : Leading stop ks' stop')
    (hf : ReadsWith spare (f · a) stop' ks' b) :
    ReadsWith spare (fun nested => parser nested >>= f nested) stop' (ks ++ ks') b := by
  intro depth s s' hdepth hs hstop
  rw [List.length_append] at hdepth
  obtain ⟨s₁, hs₁, hs'⟩ := spans_append_iff.mp hs
  exact succeeds_bind_iff.mpr ⟨a, s₁, h (by omega) hs₁ (hnext.current hs' hstop),
    hf (by omega) hs' hstop⟩

/-- What reads no token behind a phrase. -/
theorem ReadsWith.then (h : ReadsWith spare parser stop ks a) (hnext : ∀ k, stop' k → stop k)
    (hf : ReadsWith spare (f · a) stop' [] b) :
    ReadsWith spare (fun nested => parser nested >>= f nested) stop' ks b := by
  rw [← List.append_nil ks]
  exact h.bind hnext hf

theorem ReadsWith.last (h : ReadsWith spare parser stop ks a) :
    ReadsWith spare (fun nested => parser nested >>= fun a => Pure.pure (g a)) stop ks (g a) :=
  h.then (fun _ => id) .pure

section

variable {x : Parser α}

/-- A token by itself; what is nested behind it may be as deep as the rest is long. -/
theorem ReadsWith.token (hx : ∀ s : Stream, s.current.kind = k → Succeeds x s a s.tail)
    (hf : ReadsInside (f · a) stop ks b) :
    ReadsBy (fun nested => x >>= f nested) stop (k :: ks) b := by
  intro depth s s' hdepth hs hstop
  exact succeeds_bind_iff.mpr ⟨a, s.tail, hx s hs.current, hf hdepth hs.tail hstop⟩

theorem ReadsWith.look (h : Leading P ks stop)
    (hx : ∀ s : Stream, P s.current.kind → Succeeds x s a s)
    (hf : ReadsWith spare (f · a) stop ks b) :
    ReadsWith spare (fun nested => x >>= f nested) stop ks b := by
  intro depth s s' hdepth hs hstop
  exact succeeds_bind_iff.mpr ⟨a, s, hx s (h.current hs hstop), hf hdepth hs hstop⟩

end

theorem ReadsWith.kind {f : Nested → Kind → Parser β} (hf : ReadsBy (f · k) stop (k :: ks) b) :
    ReadsBy (fun nested => Parser.kind >>= f nested) stop (k :: ks) b :=
  .look (P := (k = ·)) rfl (by simp) hf

theorem ReadsWith.advance {f : Nested → Unit → Parser β} (hf : ReadsInside (f · ()) stop ks b) :
    ReadsBy (fun nested => Parser.advance >>= f nested) stop (k :: ks) b :=
  .token (by simp) hf

theorem ReadsWith.punct {p} {f : Nested → Unit → Parser β} (hf : ReadsInside (f · ()) stop ks b) :
    ReadsBy (fun nested => Parser.punct p >>= f nested) stop (.punct p :: ks) b :=
  .token (by simp) hf

theorem ReadsWith.word {w} {f : Nested → Unit → Parser β} (hf : ReadsInside (f · ()) stop ks b) :
    ReadsBy (fun nested => Parser.word w >>= f nested) stop (.ident w :: ks) b :=
  .token (by simp) hf

section

variable {f : Nested → Bool → Parser β}

theorem ReadsWith.eat (hf : ReadsInside (f · true) stop ks b) :
    ReadsBy (fun nested => Parser.eat k >>= f nested) stop (k :: ks) b :=
  .token (fun _ => Parser.eat_of_eq) hf

theorem ReadsWith.eat_absent (h : Leading (· ≠ k) ks stop)
    (hf : ReadsWith spare (f · false) stop ks b) :
    ReadsWith spare (fun nested => Parser.eat k >>= f nested) stop ks b :=
  .look h (fun _ => Parser.eat_of_ne) hf

end

/-! ### Nested phrases -/

/-- What a parser reads by itself, it reads one level deeper. -/
theorem ReadsWith.nested {inner : Nested → Parser α} (h : ReadsBy parser stop ks a)
    (hinner : ∀ depth, inner (Grammar.nested (depth + 1)) = parser (Grammar.nested depth)) :
    ReadsInside inner stop ks a := by
  rintro (_ | depth) s s' hdepth hs hstop
  · omega
  · rw [hinner]
    exact h (by omega) hs hstop

theorem ReadsWith.nestedTarget {p} (h : ReadsBy Grammar.bindingTarget stop ks p) :
    ReadsInside (·.bindingTarget) stop ks p :=
  h.nested fun _ => rfl

theorem ReadsWith.nestedUnary (h : ReadsBy Grammar.unary stop ks e) :
    ReadsInside (·.unary) stop ks e :=
  h.nested fun _ => rfl

theorem ReadsWith.nestedBinary {n} (h : ReadsBy (fun nested => Grammar.binary nested n) stop ks e) :
    ReadsInside (·.binary n) stop ks e :=
  h.nested fun _ => rfl

theorem ReadsWith.nestedAssignment (h : ReadsBy Grammar.assignment stop ks e) :
    ReadsInside (·.assignment) stop ks e :=
  h.nested fun _ => rfl

theorem ReadsWith.nestedExpression (h : ReadsBy Grammar.expression stop ks e) :
    ReadsInside (·.expression) stop ks e :=
  h.nested fun _ => rfl

theorem ReadsWith.nestedStatement {stmt} (h : ReadsBy Grammar.statement stop ks stmt) :
    ReadsInside (·.statement) stop ks stmt :=
  h.nested fun _ => rfl

end

end IndicatorCompiler.Script
