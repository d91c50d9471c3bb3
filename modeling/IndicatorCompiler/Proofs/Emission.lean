import IndicatorCompiler.Proofs.FreshNames
import IndicatorCompiler.Proofs.Outcomes

/-!
# What a step of lowering emits

Lowering only ever appends to the block that is being filled.  `Adds S x Q` says that the step `x`
appends statements which have `Q`, together with its result.  A step that writes an expression is
`Quiet`: all that it may append are bindings of generated names, for the values that a `switch`
compares.  Rule by rule, what is written and appended is what `Emits` says, so properties of emitted
statements can be shown without running anything.
-/

namespace IndicatorCompiler.Lowering

open Pine
open Text (Rendered)
open List (forall_mem_cons mem_cons_self append_nil append_assoc mapM_cons forall_mem_append
  forall_mem_nil mapM_nil)

/-! ## Steps -/

/-- The state belongs to the scene. -/
structure Scene.Holds (S : Scene) (g : Generator) : Prop where
  declared : ∀ n ∈ S.declared, n ∈ g.declared
  methods : g.methods = S.methods
  referenced : S.valid → ∀ n ∈ g.referenced, n ∈ S.referenced ∨ isWord n = true

/-- The scene of a state, in which nothing is known of leaves. -/
def Scene.ofState (g : Generator) : Scene := ⟨[], g.methods, [], False⟩

theorem Scene.holds_ofState (g : Generator) : (Scene.ofState g).Holds g :=
  ⟨by simp [ofState], rfl, nofun⟩

/-- The names are generated ones, each of them new where it comes in front of the declared ones. -/
def Generated (declared names : List String) : Prop :=
  names.Nodup ∧ ∀ n ∈ names, n ∉ declared ∧ ∃ k : Nat, n = switchStem ++ toString k

/-- A later state of the scene: the level is the same, and generated names have been declared. -/
structure Scene.Reached (S : Scene) (g g' : Generator) : Prop extends S.Holds g' where
  level : g'.level = g.level
  generated : ∃ names, g'.declared = names ++ g.declared ∧ Generated g.declared names

theorem Scene.Reached.of_holds {S : Scene} {g g'} (h : S.Holds g') (hlevel : g'.level = g.level)
    (hdeclared : g'.declared = g.declared) : S.Reached g g' :=
  ⟨h, hlevel, [], hdeclared, List.nodup_nil, nofun⟩

theorem Scene.Reached.trans {S : Scene} {g₁ g₂ g₃} (h : S.Reached g₁ g₂) (h' : S.Reached g₂ g₃) :
    S.Reached g₁ g₃ := by
  obtain ⟨names, hnames, hnodup, hnew⟩ := h.generated
  obtain ⟨names', hnames', hnodup', hnew'⟩ := h'.generated
  rw [hnames] at hnames' hnew'
  refine ⟨h'.toHolds, h'.level.trans h.level, names' ++ names, by simp [hnames'], ?_, ?_⟩
  · refine List.nodup_append.mpr ⟨hnodup', hnodup, ?_⟩
    rintro n hn _ hn' rfl
    exact (hnew' n hn).1 (List.mem_append_left _ hn')
  · refine forall_mem_append.mpr ⟨fun n hn => ⟨fun hmem => ?_, (hnew' n hn).2⟩, hnew⟩
    exact (hnew' n hn).1 (List.mem_append_right _ hmem)

/-- From every state of the scene, the step appends statements and has a result, of which `Q`
holds. -/
def Adds {α : Type} (S : Scene) (x : Gen α) (Q : List Emitted → α → Prop) : Prop :=
  ∀ ⦃g : Generator⦄, S.Holds g →
    ∃ new, (x.run g).2.output = g.output ++ new ∧ S.Reached g (x.run g).2 ∧ Q new (x.run g).1

/-- The step appends bindings only, and its result has `P`. -/
def Quiet {α : Type} (S : Scene) (x : Gen α) (P : α → Prop) : Prop :=
  Adds S x fun new a => (∀ stmt ∈ new, Emits S (.binding stmt)) ∧ P a

/-- The step appends one statement, of which `R` holds, with bindings in front of it. -/
def EmitsOne (S : Scene) (x : Gen Unit) (R : Emitted → Prop) : Prop :=
  Adds S x fun new _ => ∃ before stmt, new = before ++ [stmt] ∧
  (∀ s ∈ before, Emits S (.binding s)) ∧ R stmt

variable {R : Emitted → Prop}

section

variable {α β : Type} {S : Scene} {x : Gen α} {f : α → Gen β} {Q : List Emitted → α → Prop}
    {P : α → Prop}

theorem adds_pure {a : α} (h : Q [] a) : Adds S (pure a) Q :=
  fun g hg => ⟨[], (append_nil g.output).symm, .of_holds hg rfl rfl, h⟩

/-- What the second step appends comes behind what the first one has appended. -/
theorem Adds.bind {R : List Emitted → β → Prop} (hx : Adds S x Q)
    (hf : ∀ before a, Q before a → Adds S (f a) fun new b => R (before ++ new) b) :
    Adds S (x >>= f) R := by
  intro g hg
  obtain ⟨before, hbefore, hg', hQ⟩ := hx hg
  obtain ⟨new, hnew, hg'', hR⟩ := hf before _ hQ hg'.toHolds
  refine ⟨before ++ new, ?_, hg'.trans hg'', hR⟩
  rw [← append_assoc, ← hbefore]
  exact hnew

theorem Adds.mono {R : List Emitted → α → Prop} (hx : Adds S x Q)
    (h : ∀ new a, Q new a → R new a) : Adds S x R := by
  intro g hg
  obtain ⟨new, hnew, hg', hQ⟩ := hx hg
  exact ⟨new, hnew, hg', h new _ hQ⟩

theorem adds_emit (stmt : Emitted) : Adds S (emit stmt) fun new _ => new = [stmt] :=
  fun _ hg => ⟨[stmt], rfl, .of_holds ⟨hg.declared, hg.methods, hg.referenced⟩ rfl rfl, rfl⟩

theorem adds_deliver (sink : Sink) (value : String) :
    Adds S (sink.deliver value) fun new _ => new = sink.delivered value := by
  cases sink with
  | assign name | ret => exact adds_emit _
  | discard => exact adds_pure rfl

theorem quiet_pure {a} (h : P a) : Quiet S (pure a) P := adds_pure ⟨by simp, h⟩

theorem Quiet.bind {Q : β → Prop} (hx : Quiet S x P)
    (hf : ∀ a, P a → Quiet S (f a) Q) : Quiet S (x >>= f) Q :=
  Adds.bind hx fun _ a ⟨hbefore, ha⟩ => (hf a ha).mono fun _ _ ⟨hnew, hb⟩ =>
    ⟨forall_mem_append.mpr ⟨hbefore, hnew⟩, hb⟩

theorem Quiet.map {Q : β → Prop} {h : α → β} (hx : Quiet S x P)
    (hh : ∀ a, P a → Q (h a)) : Quiet S (h <$> x) Q := by
  intro g hg
  obtain ⟨new, hnew, hg', hquiet, ha⟩ := hx hg
  exact ⟨new, hnew, hg', hquiet, hh _ ha⟩

/-- A quiet step in front of one that does not mind bindings. -/
theorem Quiet.adds {R : List Emitted → β → Prop} (hx : Quiet S x P)
    (hR : ∀ ⦃before new b⦄, (∀ stmt ∈ before, Emits S (.binding stmt)) → R new b →
      R (before ++ new) b)
    (hf : ∀ a, P a → Adds S (f a) R) : Adds S (x >>= f) R :=
  Adds.bind hx fun _ a ⟨hbefore, ha⟩ => (hf a ha).mono fun _ _ hnew => hR hbefore hnew

/-- Results of a quiet step are used by a statement. -/
theorem Quiet.emits {step : α → Gen Unit} (hx : Quiet S x P)
    (hstep : ∀ a, P a → EmitsOne S (step a) R) : EmitsOne S (x >>= step) R := by
  refine hx.adds ?_ hstep
  rintro before _ _ hbefore ⟨before', stmt, rfl, hbefore', hstmt⟩
  exact ⟨before ++ before', stmt, (append_assoc ..).symm,
    forall_mem_append.mpr ⟨hbefore, hbefore'⟩, hstmt⟩

theorem emitsOne_emit {stmt} (h : R stmt) : EmitsOne S (emit stmt) R :=
  (adds_emit stmt).mono fun new _ hnew => ⟨[], stmt, by simp [hnew], by simp, h⟩

theorem quiet_get : Quiet S get S.Holds :=
  fun g hg => ⟨[], (append_nil g.output).symm, .of_holds hg rfl rfl, by simp, hg⟩

theorem adds_reference {n : String} (h : S.valid → isWord n = true) :
    Adds S (reference n) fun new y => new = [] ∧ y = bindingName n := by
  refine fun g hg => ⟨[], (append_nil g.output).symm,
    .of_holds ⟨hg.declared, hg.methods, ?_⟩ rfl rfl, rfl, rfl⟩
  exact fun hvalid => forall_mem_cons.mpr ⟨.inr (h hvalid), hg.referenced hvalid⟩

theorem quiet_reference {n} (h : S.valid → isWord n = true) :
    Quiet S (reference n) fun y => y = bindingName n :=
  (adds_reference h).mono fun _ _ ⟨hnew, hy⟩ => ⟨by simp [hnew], hy⟩

/-- A generated name is none that is declared. -/
theorem quiet_freshName : Quiet S (freshName switchStem) fun name =>
    ∃ k : Nat, name = switchStem ++ toString k ∧ name ∉ S.declared := by
  intro g hg
  obtain ⟨k, -, hk, hfresh⟩ := Text.numbered_eq g.declared switchStem g.fresh
  have hname : ((freshName switchStem).run g).1 = switchStem ++ toString k := congrArg Prod.fst hk
  refine ⟨[], (append_nil g.output).symm, ⟨⟨?_, hg.methods, hg.referenced⟩, rfl, [_], rfl,
    List.nodup_singleton _, ?_⟩, by simp, k, hname, ?_⟩
  · exact fun n hn => List.mem_cons_of_mem _ (hg.declared n hn)
  · exact fun n hn => List.mem_singleton.mp hn ▸ hname ▸ ⟨hfresh, k, rfl⟩
  · rw [hname]
    exact fun hmem => hfresh (hg.declared _ hmem)

/-- The statements of a block are not appended where the block stands. -/
theorem quiet_block {step} {Q : List Emitted → Prop} (h : Adds S step fun new _ => Q new) :
    Quiet S (block step) Q := by
  intro g hg
  have hinner : S.Holds { g with output := [], level := g.level + 1 } :=
    ⟨hg.declared, hg.methods, hg.referenced⟩
  obtain ⟨new, hnew, hg', hQ⟩ := h hinner
  -- the step comes back to the level of the block, so counting down gives the level outside
  have hlevel : ((block step).run g).2.level = g.level := congrArg (· - 1) hg'.level
  refine ⟨[], (append_nil g.output).symm,
    ⟨⟨hg'.declared, hg'.methods, hg'.referenced⟩, hlevel, hg'.generated⟩, by simp, ?_⟩
  exact (show ((block step).run g).1 = new from hnew) ▸ hQ

theorem quiet_mapM {as : List α} {P : β → Prop} (h : ∀ a ∈ as, Quiet S (f a) P) :
    Quiet S (as.mapM f) fun bs => ∀ b ∈ bs, P b := by
  induction as with
  | nil =>
    rw [mapM_nil]
    exact quiet_pure (by simp)
  | cons a as ih =>
    obtain ⟨ha, has⟩ := forall_mem_cons.mp h
    rw [mapM_cons]
    exact ha.bind fun b hb => (ih has).bind fun bs hbs => quiet_pure (forall_mem_cons.mpr ⟨hb, hbs⟩)

theorem quiet_references {names} (h : S.valid → ∀ n ∈ names, IsIdentifier n) :
    Quiet S (references names) fun ys => ys = names.map bindingName := by
  induction names with
  | nil => exact quiet_pure rfl
  | cons n names ih =>
    rw [references, mapM_cons]
    simp only [forall_mem_cons, imp_and] at h
    refine (quiet_reference fun hvalid => (h.1 hvalid).1).bind fun y hy => ?_
    exact (ih h.2).bind fun ys hys => quiet_pure (by rw [hy, hys, List.map_cons])

end

/-- Where the weakest text will do, an expression stands without parentheses. -/
theorem within_lowest (r : Rendered) : r.within Strength.lowest = r.text :=
  if_neg (Nat.not_lt_zero _)

/-! ## Lowered parts -/

/-- The step writes a phrase. -/
abbrev Phrases (S : Scene) (x : Gen String) : Prop := Quiet S x fun t => Emits S (.phrase t)

/-- Both ways to lower the expression are as they should be. -/
structure Lowered.Follows (S : Scene) (x : Expr) (e : Lowered) : Prop where
  rendered : Quiet S e.rendered fun r => Emits S (.text x r)
  into : ∀ sink, Adds S (e.into sink) fun new _ => Emits S (.into sink x new)

/-- The body is lowered as it should be, also if it is taken as one expression. -/
structure FollowsBody (S : Scene) (body : List Stmt) : Prop where
  run : ∀ sink fallback, Adds S (delivery (lowerStmts body) sink fallback) fun new _ =>
    Emits S (.body sink fallback body new)
  value : ∀ x ∈ singleExpr? body, (lowerExpr x).Follows S x

/-- The parts of the chain are lowered as they should be. -/
structure FollowsChain (S : Scene) (chain : List Branch × Option (List Stmt)) : Prop where
  tests : ∀ branch ∈ chain.1, (lowerExpr branch.test).Follows S branch.test
  bodies : ∀ branch ∈ chain.1, FollowsBody S branch.body
  last : ∀ body ∈ chain.2, FollowsBody S body

/-- The statement is lowered as it should be, and so are its parts if it is an expression or an
`if`. -/
structure FollowsStmt (S : Scene) (kind : StmtKind) : Prop where
  run : ∀ sink fallback, Adds S ((lowerStmt kind).run sink fallback) fun new _ =>
    Emits S (.stmt sink fallback kind new)
  value : ∀ x, kind = .expr x → (lowerExpr x).Follows S x
  chain : ∀ test body otherwise, kind = .ifElse test body otherwise →
    FollowsChain S (ifChain test body otherwise)

section

variable {S : Scene} {x : Expr} {e : Lowered}

theorem Lowered.Follows.written (h : e.Follows S x) (n : Nat) :
    Quiet S (e.within n) fun t => ∃ r, t = r.within n ∧ Emits S (.text x r) :=
  h.rendered.bind fun r hr => quiet_pure ⟨r, rfl, hr⟩

theorem Lowered.Follows.within (h : e.Follows S x) (n : Nat) : Phrases S (e.within n) :=
  h.rendered.bind fun _ hr => quiet_pure (.within hr n)

theorem Lowered.Follows.text (h : e.Follows S x) : Phrases S e.text := h.within _

theorem follows_plain (hx : isChoice x = false) {rendered}
    (h : Quiet S rendered fun r => Emits S (.text x r)) :
    (Lowered.ofRendered rendered).Follows S x where
  rendered := h
  into sink :=
    Adds.bind h fun before r ⟨hbefore, hr⟩ => (adds_deliver _ _).mono fun new _ hnew => by
    rw [hnew, within_lowest]
    exact .plain sink hx hbefore hr

theorem follows_primary (hx : isChoice x = false) {t}
    (h : Emits S (.text x ⟨t, Strength.primary⟩)) : (primary t).Follows S x :=
  follows_plain hx (quiet_pure h)

theorem follows_ofSink (hx : x.lifted = x) {into : Sink → Gen Unit}
    (h : ∀ sink, Adds S (into sink) fun new _ => Emits S (.into sink x new)) :
    (Lowered.ofSink into).Follows S x where
  rendered := (quiet_block (h .ret)).bind fun _ hnew => quiet_get.bind fun g _ =>
    quiet_pure (.called g.level hx hnew)
  into := h

/-- The argument is written as it should be. -/
structure LoweredArgument.Follows (S : Scene) (arg : LoweredArgument) : Prop where
  name : S.valid → ∀ n ∈ arg.name, isWord n = true
  value : Phrases S (arg.value.within Strength.argument)

theorem quiet_applied (x : Expr) (types : List TypeRef) (as : List Argument) {callee : String}
    {receiver args} (hcallee : Emits S (.phrase callee))
    (hreceiver : ∀ r ∈ receiver, Emits S (.phrase r)) (hargs : ∀ arg ∈ args, arg.Follows S) :
    Quiet S (renderApplied callee receiver args) fun r => Emits S (.text (.call x types as) r) := by
  have htexts : ∀ arg ∈ args, Quiet S arg.text fun text =>
      (S.valid → ∀ n ∈ text.1, isWord n = true) ∧ Emits S (.phrase text.2) := fun arg harg =>
    (hargs arg harg).value.bind fun _ ht => quiet_pure ⟨(hargs arg harg).name, ht⟩
  exact (quiet_mapM htexts).bind fun texts htexts => quiet_pure (.call x types as hcallee hreceiver
    (fun hvalid text htext => (htexts text htext).1 hvalid) fun text htext => (htexts text htext).2)

/-- A method is called by its name, anything else through the object. -/
theorem quiet_memberCall (base : Expr) {object} (ho : object.Follows S base) {p}
    (hp : S.valid → isWord p = true) (types : List TypeRef) (as : List Argument) {args}
    (hargs : ∀ arg ∈ args, arg.Follows S) :
    Quiet S (renderMemberCall base object p types args) fun r =>
      Emits S (.text (.call (.member base p) types as) r) := by
  refine quiet_get.bind fun g hg => ?_
  split
  · rename_i hmethod
    rw [Bool.and_eq_true, List.contains_iff_mem, hg.methods] at hmethod
    refine (ho.within _).bind fun _ ht => (quiet_reference hp).bind fun y hy => ?_
    subst hy
    exact quiet_applied _ _ _ (.method hmethod.1 hp) (by simpa using ht) hargs
  · refine (ho.within _).bind fun _ ht => ?_
    split
    · exact quiet_applied _ _ _ (.construct types ht) (by simp) hargs
    · exact quiet_applied _ _ _ (.point hp ht) (by simp) hargs

/-! ### Chains -/

variable {sink : Sink} {fallback : String} {branches : List Branch} {last : Option (List Stmt)}

/-- Bindings in front of a chain make no difference. -/
theorem Emits.behind {before new} (hbefore : ∀ stmt ∈ before, Emits S (.binding stmt))
    (h : Emits S (.chain sink fallback branches last new)) :
    Emits S (.chain sink fallback branches last (before ++ new)) := by
  cases h with
  | bare hbefore' h =>
    rw [← append_assoc]
    exact .bare (forall_mem_append.mpr ⟨hbefore, hbefore'⟩) h
  | chain hbefore' harms hfinal hsome =>
    rw [← append_assoc]
    exact .chain (forall_mem_append.mpr ⟨hbefore, hbefore'⟩) harms hfinal hsome

/-- An arm with its test written, for a branch. -/
structure ArmFor (S : Scene) (arm : String × Delivery) (branch : Branch) : Prop where
  test : Emits S (.phrase arm.1)
  body : arm.2 = delivery (lowerStmts branch.body)

theorem quiet_emittedArm {arm branch} (h : ArmFor S arm branch)
    (hbody : FollowsBody S branch.body) : Quiet S (emittedArm sink fallback arm) fun emitted =>
      Emits S (.phrase emitted.test) ∧ Emits S (.body sink fallback branch.body emitted.body) := by
  rw [emittedArm, h.body]
  exact (quiet_block (hbody.run sink fallback)).bind fun _ hnew => quiet_pure ⟨h.test, hnew⟩

theorem quiet_emittedArms {arms} (h : List.Forall₂ (ArmFor S) arms branches)
    (hbodies : ∀ branch ∈ branches, FollowsBody S branch.body) :
    Quiet S (arms.mapM (emittedArm sink fallback)) fun emitted =>
      Emits S (.arms sink fallback branches emitted) := by
  induction h with
  | nil =>
    rw [mapM_nil]
    exact quiet_pure (.armsNil sink fallback)
  | cons harm _ ih =>
    obtain ⟨hbody, hbodies⟩ := forall_mem_cons.mp hbodies
    rw [mapM_cons]
    exact (quiet_emittedArm harm hbody).bind fun _ hfirst => (ih hbodies).bind fun _ hmore =>
      quiet_pure (.armsCons hfirst.1 hfirst.2 hmore)

theorem adds_otherwise (h : ∀ body ∈ last, FollowsBody S body) :
    Adds S (otherwise (last.map fun body => delivery (lowerStmts body)) sink fallback)
      fun new _ => Emits S (.last sink fallback last new) := by
  cases last with
  | none => exact (adds_deliver sink fallback).mono fun _ _ hnew => hnew ▸ .lastNone sink fallback
  | some body => exact ((h body rfl).run sink fallback).mono fun _ _ hnew => .lastSome hnew

theorem adds_emitChain {arms} (harms : List.Forall₂ (ArmFor S) arms branches)
    (hbodies : ∀ branch ∈ branches, FollowsBody S branch.body)
    (hlast : ∀ body ∈ last, FollowsBody S body) :
    Adds S (emitChain arms (last.map fun body => delivery (lowerStmts body)) sink fallback)
      fun new _ => Emits S (.chain sink fallback branches last new) := by
  cases harms with
  | nil => exact (adds_otherwise hlast).mono fun _ _ hnew => .bare (forall_mem_nil _) hnew
  | cons harm hmore =>
    obtain ⟨hbody, hbodies⟩ := forall_mem_cons.mp hbodies
    refine (quiet_emittedArm harm hbody).adds (fun _ _ _ => .behind) fun first hfirst =>
      (quiet_emittedArms hmore hbodies).adds (fun _ _ _ => .behind) fun more hmore => ?_
    have hchain {final : Option (List Emitted)}
        (hfinal : ∀ new ∈ final, Emits S (.last sink fallback last new))
        (hsome : sink ≠ .discard → final.isSome = true) :
        Adds S (emit (.chain first more final)) fun new _ =>
          Emits S (.chain sink fallback _ last new) :=
      (adds_emit _).mono fun _ _ hnew => by
        subst hnew
        exact .chain (forall_mem_nil _) (.armsCons hfirst.1 hfirst.2 hmore) hfinal hsome
    split
    · have hblock : Quiet S
        (some <$> block (otherwise (last.map fun body => delivery (lowerStmts body))
          sink fallback)) fun final =>
          (∀ new ∈ final, Emits S (.last sink fallback last new)) ∧ final.isSome = true :=
        (quiet_block (adds_otherwise hlast)).map fun _ hnew => ⟨by simpa using hnew, rfl⟩
      exact hblock.adds (fun _ _ _ => .behind) fun final hfinal => hchain hfinal.1 fun _ => hfinal.2
    · rename_i hnone
      exact hchain (by simp) fun hsink => absurd (by simp [hsink]) hnone

theorem quiet_testTexts : {branches : List Branch} →
    (∀ branch ∈ branches, (lowerExpr branch.test).Follows S branch.test) →
    Quiet S (testTexts (lowerBranches branches)) fun texts => List.Forall₂ (ArmFor S) texts branches
  | [], _ => quiet_pure .nil
  | ⟨_, _⟩ :: rest, h => by
    obtain ⟨htest, htests⟩ := forall_mem_cons.mp h
    rw [lowerBranches, testTexts, mapM_cons, bind_assoc]
    exact htest.text.bind fun _ ht => (quiet_testTexts htests).bind fun _ hmore =>
      quiet_pure (.cons ⟨ht, rfl⟩ hmore)

theorem FollowsChain.deliver {chain} (h : FollowsChain S chain) (sink : Sink) (fallback : String) :
    Adds S ((loweredChain chain).deliver sink fallback) fun new _ =>
      Emits S (.chain sink fallback chain.1 chain.2 new) :=
  (quiet_testTexts h.tests).adds (fun _ _ _ => .behind) fun _ harms =>
    adds_emitChain harms h.bodies h.last

theorem follows_conditional (h : FollowsChain S (branches, last)) (lifts : Bool) :
    (lowerExpr (.conditional branches last lifts)).Follows S
    (.conditional branches last lifts) := by
  have hlowered : lowerExpr (.conditional branches last lifts) =
      .ofSink fun sink => (loweredChain (branches, last)).deliver sink ifFallback := by
    cases last <;> rfl
  rw [hlowered]
  exact follows_ofSink rfl fun sink => (h.deliver sink _).mono fun _ _ => .conditional lifts

/-! ### `switch` -/

variable {cases : List Case} {d : Option String}

theorem phrases_discriminantText (value : Expr) {lowered} (h : lowered.Follows S x) :
    Phrases S (discriminantText value lowered) := by
  unfold discriminantText
  split
  · exact h.within _
  · refine h.text.bind fun text ht => quiet_freshName.bind fun name hname => ?_
    obtain ⟨k, rfl, hfresh⟩ := hname
    have hline : Quiet S
      (emit (.line ("let " ++ (switchStem ++ toString k) ++ " = " ++ text ++ ";")))
        fun _ => True :=
      (adds_emit _).mono fun _ _ hnew => by
        subst hnew
        exact ⟨List.forall_mem_singleton.mpr (.binding hfresh ht), trivial⟩
    exact hline.bind fun _ _ => quiet_pure (.fresh k)

theorem quiet_boundDiscriminant {discriminant} (h : ∀ d ∈ discriminant, d.2.Follows S d.1) :
    Quiet S (boundDiscriminant discriminant) fun bound => ∀ d ∈ bound, Emits S (.phrase d) := by
  cases discriminant with
  | none => exact quiet_pure (by simp)
  | some d => exact (phrases_discriminantText d.1 (h d rfl)).map fun _ hd => by simpa using hd

theorem phrases_caseCondition (hd : ∀ t ∈ d, Emits S (.phrase t)) {test} (h : test.Follows S x) :
    Phrases S (caseCondition d test) := by
  cases d with
  | none => exact h.text
  | some t => exact (h.within _).bind fun _ ht => quiet_pure (.joined (by simp) (hd t rfl) ht)

/-- A condition with its case, for a branch. -/
structure CaseFor (S : Scene) (arm : String × LoweredCase) (branch : Branch) : Prop where
  test : Emits S (.phrase arm.1)
  body : arm.2.body = delivery (lowerStmts branch.body)
  value : arm.2.value? = (singleExpr? branch.body).map lowerExpr

theorem quiet_caseConditions (hd : ∀ t ∈ d, Emits S (.phrase t)) : (cases : List Case) →
    (∀ branch ∈ testedBranches cases, (lowerExpr branch.test).Follows S branch.test) →
    Quiet S (caseConditions d (lowerCases cases)) fun arms =>
      List.Forall₂ (CaseFor S) arms (testedBranches cases)
  | [], _ => quiet_pure .nil
  | ⟨none, _⟩ :: rest, h => quiet_caseConditions hd rest h
  | ⟨some _, body⟩ :: rest, h => by
    obtain ⟨htest, htests⟩ := forall_mem_cons.mp h
    exact (phrases_caseCondition hd htest).bind fun _ ht =>
      (quiet_caseConditions hd rest htests).bind
      fun _ hmore => quiet_pure (.cons ⟨ht, rfl, singleValue?_lowerStmts body⟩ hmore)

theorem adds_switchInto {discriminant} (hd : ∀ d ∈ discriminant, d.2.Follows S d.1)
    (h : FollowsChain S (testedBranches cases, defaultBody cases)) (sink : Sink) :
    Adds S (switchInto discriminant (lowerCases cases) sink) fun new _ =>
      Emits S (.chain sink switchFallback (testedBranches cases) (defaultBody cases) new) := by
  refine (quiet_boundDiscriminant hd).adds (fun _ _ _ => .behind) fun _ hd =>
    (quiet_caseConditions hd cases h.tests).adds (fun _ _ _ => .behind) fun arms harms => ?_
  have hdefault : (defaultCase? (lowerCases cases)).map (·.body) =
      (defaultBody cases).map fun body => delivery (lowerStmts body) := by
    rw [defaultCase?_lowerCases, defaultBody, Option.map_map, Option.map_map]
    rfl
  rw [hdefault]
  refine adds_emitChain ?_ h.bodies h.last
  rw [List.forall₂_map_left_iff]
  exact harms.imp fun _ _ harm => ⟨harm.test, harm.body⟩

theorem quiet_caseValue {body} (h : ∀ x ∈ singleExpr? body, (lowerExpr x).Follows S x) :
    Quiet S (caseValue ((singleExpr? body).map lowerExpr)) fun t => Emits S (.value body t) := by
  cases hx : singleExpr? body with
  | none => exact quiet_pure (.unmatched hx)
  | some x =>
    obtain ⟨line, rfl⟩ : ∃ line, body = [⟨.expr x, line⟩] := by
      unfold singleExpr? at hx
      split at hx
      · exact ⟨_, by rw [Option.some.inj hx]⟩
      · cases hx
    exact (h x hx).rendered.bind fun _ hr => quiet_pure (.single line hr)

theorem quiet_caseTernaries {arms} (h : List.Forall₂ (CaseFor S) arms branches)
    (hbodies : ∀ branch ∈ branches, FollowsBody S branch.body) (last : String) :
    Quiet S (caseTernaries arms last) fun t => Emits S (.choices branches last t) := by
  unfold caseTernaries
  induction h with
  | nil => exact quiet_pure (.none last)
  | cons harm _ ih =>
    obtain ⟨hbody, hbodies⟩ := forall_mem_cons.mp hbodies
    rw [List.foldrM_cons]
    refine (ih hbodies).bind fun _ hrest => ?_
    simp only [harm.value]
    exact (quiet_caseValue hbody.value).bind fun _ hv => quiet_pure (.either harm.test hv hrest)

theorem quiet_switchArms (subject : Option Expr) (hd : ∀ t ∈ d, Emits S (.phrase t))
    (h : FollowsChain S (testedBranches cases, defaultBody cases)) :
    Quiet S (do
      let arms ← caseConditions d (lowerCases cases)
      let last ← caseValue ((defaultCase? (lowerCases cases)).bind (·.value?))
      return (⟨← caseTernaries arms last, Strength.ternary⟩ : Rendered)) fun r =>
        Emits S (.text (.switch subject cases false) r) := by
  have hdefault : (defaultCase? (lowerCases cases)).bind (·.value?) =
      (singleExpr? ((defaultBody cases).getD [])).map lowerExpr := by
    rw [defaultCase?_lowerCases, defaultBody]
    cases (cases.filter (·.test.isNone)).getLast? with
    | none => rfl
    | some case => exact singleValue?_lowerStmts case.body
  have hlast : ∀ x ∈ singleExpr? ((defaultBody cases).getD []), (lowerExpr x).Follows S x := by
    cases hbody : defaultBody cases with
    | none => exact fun _ hx => by cases hx
    | some body => exact (h.last body hbody).value
  rw [hdefault]
  refine (quiet_caseConditions hd cases h.tests).bind fun arms harms => ?_
  refine (quiet_caseValue hlast).bind fun last hlast => ?_
  refine (quiet_caseTernaries harms h.bodies last).bind fun t ht => ?_
  exact quiet_pure (.ternaries subject hlast ht)

theorem follows_switch {discriminant} (hd : ∀ x ∈ discriminant, (lowerExpr x).Follows S x)
    (h : FollowsChain S (testedBranches cases, defaultBody cases)) (lifts : Bool) :
    (lowerExpr (.switch discriminant cases lifts)).Follows S
    (.switch discriminant cases lifts) := by
  have hd' : ∀ d ∈ discriminant.map fun x => (x, lowerExpr x), d.2.Follows S d.1 := by
    simpa using hd
  have hlowered : lowerExpr (.switch discriminant cases lifts) =
      lowerSwitch (discriminant.map fun x => (x, lowerExpr x)) (lowerCases cases) lifts := by
    cases discriminant <;> rfl
  rw [hlowered]
  have hinto (sink : Sink) := (adds_switchInto hd' h sink).mono fun _ _ hnew =>
    Emits.switch discriminant lifts hnew
  cases lifts with
  | true => exact follows_ofSink rfl hinto
  | false =>
    exact ⟨(quiet_boundDiscriminant hd').bind fun _ hd => quiet_switchArms discriminant hd h, hinto⟩

end

/-! ### Statements -/

section

variable {S : Scene} {body : List Stmt} {target : DeclTarget} {x : Expr}

theorem adds_body : (body : List Stmt) → (∀ stmt ∈ body, FollowsStmt S stmt.kind) →
    ∀ sink fallback, Adds S (delivery (lowerStmts body) sink fallback) fun new _ =>
      Emits S (.body sink fallback body new)
  | [], _, sink, fallback => by
    rw [lowerStmts, delivery_nil]
    exact (adds_deliver sink fallback).mono fun _ _ hnew => hnew ▸ .bodyNil sink fallback
  | [⟨kind, line⟩], h, sink, fallback => by
    rw [lowerStmts, lowerStmts, delivery_singleton]
    exact ((h _ mem_cons_self).run sink fallback).mono fun _ _ => .bodyLast line
  | ⟨kind, line⟩ :: ⟨next, line'⟩ :: rest, h, sink, fallback => by
    obtain ⟨hkind, hrest⟩ := forall_mem_cons.mp h
    rw [lowerStmts, lowerStmts, delivery_cons_cons]
    exact (hkind.run .discard fallback).bind fun _ _ hbefore =>
      (adds_body (⟨next, line'⟩ :: rest) hrest sink fallback).mono fun _ _ => .bodyCons line hbefore

theorem follows_body (h : ∀ stmt ∈ body, FollowsStmt S stmt.kind) : FollowsBody S body where
  run := adds_body body h
  value x hx := by
    unfold singleExpr? at hx
    split at hx
    · exact (h _ mem_cons_self).value x (by rw [Option.some.inj hx])
    · cases hx

theorem follows_ofEffect {kind effect} (hkind : lowerStmt kind = .ofEffect effect)
    (hexpr : ∀ x, kind ≠ .expr x) (hif : ∀ test body otherwise, kind ≠ .ifElse test body otherwise)
    (h : ∀ fallback, EmitsOne S effect fun stmt => Emits S (.one fallback kind stmt fallback)) :
    FollowsStmt S kind where
  run sink fallback := by
    have hrun : (LoweredStmt.ofEffect effect).run sink fallback =
        (do effect; sink.deliver fallback) := by
      cases sink with
      | discard => exact bind_pure_unit.symm
      | _ => rfl
    rw [hkind, hrun]
    refine (h fallback).bind fun _ _ hnew => (adds_deliver sink fallback).mono
      fun _ _ hdelivered => ?_
    obtain ⟨before, stmt, rfl, hbefore, hstmt⟩ := hnew
    rw [hdelivered, append_assoc]
    exact .oneOf hbefore hstmt (forall_mem_nil _)
  value x hx := absurd hx (hexpr x)
  chain test body otherwise h := absurd h (hif test body otherwise)

theorem adds_ofEffectValue {kind effect value} {V : String → Prop} (heffect : EmitsOne S effect R)
    (hvalue : Quiet S value V) (hV : ∃ v, V v)
    (h : ∀ fallback stmt v, R stmt → V v → Emits S (.one fallback kind stmt v)) (sink : Sink)
    (fallback : String) :
    Adds S ((LoweredStmt.ofEffectValue effect value).run sink fallback) fun new _ =>
      Emits S (.stmt sink fallback kind new) := by
  by_cases hsink : sink = .discard
  · subst hsink
    obtain ⟨v, hv⟩ := hV
    refine Adds.mono heffect fun _ _ hnew => ?_
    obtain ⟨before, stmt, rfl, hbefore, hstmt⟩ := hnew
    exact .oneOf hbefore (h fallback stmt v hstmt hv) (forall_mem_nil _)
  · rw [LoweredStmt.run, if_neg hsink]
    refine Adds.bind heffect fun _ _ hnew => Adds.bind hvalue fun between v hv =>
      (adds_deliver sink v).mono fun _ _ hdelivered => ?_
    obtain ⟨before, stmt, rfl, hbefore, hstmt⟩ := hnew
    rw [hdelivered, append_assoc]
    exact .oneOf hbefore (h fallback stmt v hstmt hv.2) hv.1

theorem emitsOne_block (h : FollowsBody S body) (fallback : String) {head}
    (hR : ∀ new, Emits S (.body .discard fallback body new) → R (.block head new)) :
    EmitsOne S (emitBlock head (lowerStmts body)) R :=
  (quiet_block (h.run .discard fallback)).emits fun new hnew => emitsOne_emit (hR new hnew)

theorem emitsOne_declaration {mode lifts init} (hinit : init.Follows S x)
    (htarget : S.valid → ∀ n ∈ target.names, IsIdentifier n)
    (h : ∀ name, target = .name name → (mode = .plain && lifts) = false) :
    EmitsOne S (emitDeclaration mode target lifts init) fun stmt =>
      ∃ word ∈ ["let", "var", "const"],
      ∃ t, Emits S (.phrase t) ∧
        stmt = .line (word ++ " " ++ boundText target ++ " = " ++ t ++ ";") := by
  cases target with
  | name name =>
    refine (quiet_reference fun hvalid => (htarget hvalid name mem_cons_self).1).emits
      fun y hy => ?_
    subst hy
    rw [if_neg (by simp [h name rfl])]
    exact hinit.text.emits fun t ht => emitsOne_emit ⟨declWord mode, by cases mode <;> decide, t,
      ht, rfl⟩
  | tuple names =>
    refine (quiet_references htarget).emits fun ys hys => ?_
    subst hys
    exact hinit.text.emits fun t ht => emitsOne_emit ⟨tupleWord mode, by cases mode <;> decide, t,
      ht, rfl⟩

theorem adds_lifted {name} (hname : S.valid → IsIdentifier name) {init} {Q : List Emitted → Prop}
    (h : Adds S (init.into (.assign (bindingName name))) fun new _ => Q new) :
    Adds S (emitDeclaration .plain (.name name) true init) fun new _ =>
      ∃ rest, new = .line ("let " ++ bindingName name ++ ";") :: rest ∧ Q rest := by
  refine (adds_reference fun hvalid => (hname hvalid).1).bind fun _ y hy => ?_
  obtain ⟨rfl, rfl⟩ := hy
  exact (adds_emit _).bind fun before _ hbefore => h.mono fun rest _ hrest =>
    ⟨rest, by simp [hbefore], hrest⟩

theorem quiet_targetText (h : S.valid → ∀ n ∈ target.names, IsIdentifier n) :
    Quiet S (targetText target) fun t => t = boundText target := by
  cases target with
  | name name => exact quiet_reference fun hvalid => (h hvalid name mem_cons_self).1
  | tuple names => exact (quiet_references h).bind fun _ hys => quiet_pure (hys ▸ rfl)

theorem follows_declaration (mode : DeclMode) (type : Option TypeRef)
    (htarget : S.valid → ∀ n ∈ target.names, IsIdentifier n) (hx : (lowerExpr x).Follows S x) :
    FollowsStmt S (.varDecl mode type target x) := by
  refine ⟨fun sink fallback => ?_, nofun, nofun⟩
  by_cases hlifts : ∃ name, target = .name name ∧ (mode = .plain && x.needsLifting) = true
  · obtain ⟨name, rfl, hlifts⟩ := hlifts
    rw [Bool.and_eq_true, decide_eq_true_eq] at hlifts
    obtain ⟨rfl, hlifts⟩ := hlifts
    have hname : S.valid → IsIdentifier name := fun hvalid => htarget hvalid name mem_cons_self
    have heffect := adds_lifted hname (hx.into (.assign (bindingName name)))
    change Adds S ((lowerDeclaration .plain (.name name) x.needsLifting (lowerExpr x)).run _ _) _
    rw [hlifts, LoweredStmt.run]
    split
    · rename_i hsink
      subst hsink
      refine heffect.mono fun _ _ hnew => ?_
      obtain ⟨rest, rfl, hrest⟩ := hnew
      simpa [Sink.delivered] using @Emits.lifted S .discard fallback type _ _ _ hname hlifts hrest
    · refine heffect.bind fun _ _ hnew => (adds_reference fun hvalid => (hname hvalid).1).bind
        fun _ y hy => (adds_deliver sink y).mono fun _ _ hdelivered => ?_
      obtain ⟨rest, rfl, hrest⟩ := hnew
      obtain ⟨rfl, rfl⟩ := hy
      rw [hdelivered]
      exact .lifted type hname hlifts hrest
  · have hplain : ∀ name, target = .name name → (mode = .plain && x.needsLifting) = false :=
      fun name hname => Bool.eq_false_iff.mpr fun htrue => hlifts ⟨name, hname, htrue⟩
    refine adds_ofEffectValue (emitsOne_declaration hx htarget hplain) (quiet_targetText htarget)
      ⟨_, rfl⟩ ?_ sink fallback
    rintro fallback _ _ ⟨word, hword, t, ht, rfl⟩ rfl
    exact .declared fallback type hword htarget hplain ht

theorem follows_reassign {y} (op : AssignOp) (hx : (lowerExpr x).Follows S x)
    (hy : (lowerExpr y).Follows S y) : FollowsStmt S (.reassign x op y) := by
  have heffect : EmitsOne S (lowerReassign (lowerExpr x) op (lowerExpr y)).effect fun stmt => ∃ t v,
      Emits S (.phrase t) ∧ Emits S (.phrase v) ∧
        stmt = .line (t ++ " " ++ assignText op ++ " " ++ v ++ ";") :=
    hx.text.emits fun t ht => hy.text.emits fun v hv => emitsOne_emit ⟨t, v, ht, hv, rfl⟩
  refine ⟨adds_ofEffectValue heffect hx.text ⟨_, .fresh 0⟩ ?_, nofun, nofun⟩
  rintro fallback _ u ⟨t, v, ht, hv, rfl⟩ hu
  exact .reassign fallback x y op ht hv hu

/-- The parts of the parameter are as they should be. -/
structure LoweredParam.Follows (S : Scene) (param : LoweredParam) : Prop where
  name : S.valid → IsIdentifier param.name
  default : ∀ value ∈ param.default, Phrases S value.text

theorem LoweredParam.Follows.text {param : LoweredParam} (h : param.Follows S) :
    Phrases S param.text := by
  refine (quiet_reference fun hvalid => (h.name hvalid).1).bind fun y hy => ?_
  subst hy
  cases hdefault : param.default with
  | none => exact quiet_pure (.name h.name)
  | some value =>
    exact (h.default value hdefault).bind fun _ ht =>
      quiet_pure (.joined (by simp) (.name h.name) ht)

/-- The parts of the field are as they should be. -/
structure LoweredField.Follows (S : Scene) (field : LoweredField) : Prop where
  name : S.valid → isWord field.name = true
  default : ∀ value ∈ field.default, Phrases S value.text

theorem quiet_defaultTexts {fields} (h : ∀ field ∈ fields, field.Follows S) :
    Quiet S (defaultTexts fields) fun texts => ∀ text ∈ texts,
      (S.valid → isWord text.1 = true) ∧ Emits S (.phrase text.2) := by
  induction fields with
  | nil => exact quiet_pure (by simp)
  | cons field fields ih =>
    obtain ⟨hfield, hfields⟩ := forall_mem_cons.mp h
    cases hdefault : field.default with
    | none =>
      simp only [defaultTexts, hdefault]
      exact ih hfields
    | some value =>
      simp only [defaultTexts, hdefault]
      exact (hfield.default value hdefault).bind fun _ ht => (ih hfields).bind fun _ htexts =>
        quiet_pure (forall_mem_cons.mpr ⟨⟨hfield.name, ht⟩, htexts⟩)

theorem emitsOne_type {name} (hname : S.valid → IsIdentifier name) (fields' : List Field)
    (exported : Bool) {fields} (h : ∀ field ∈ fields, field.Follows S) (fallback : String) :
    EmitsOne S (emitType name fields) fun stmt =>
      Emits S (.one fallback (.typeDecl name fields' exported) stmt fallback) := by
  refine (quiet_reference (n := "Type") fun _ => by decide).emits fun _ _ => ?_
  refine (quiet_defaultTexts h).emits fun defaults hdefaults => emitsOne_emit ?_
  refine .type fallback exported hname (fun hvalid => ?_)
    (fun hvalid field hfield => (hdefaults field hfield).1 hvalid)
    fun field hfield => (hdefaults field hfield).2
  exact List.forall_mem_map.mpr fun field hfield => ⟨(h field hfield).name hvalid, _, rfl⟩

theorem quiet_loopStep (bounds : Option Bool) {step} (h : ∀ s ∈ step, Phrases S s.2.text) :
    Quiet S (loopStep bounds step) fun update => Emits S (.phrase update.2) := by
  have hsign (descends : Bool) : (if descends then " -= " else " += ") ∈ [" -= ", " += "] := by
    cases descends <;> decide
  unfold loopStep
  split
  · refine quiet_pure ?_
    split <;> exact .step (by simp)
  · rename_i value lowered
    have htext := h (value, lowered) rfl
    split
    · exact quiet_pure (.amount (hsign _) (.literal _))
    · refine htext.bind fun t ht => quiet_pure ?_
      simpa only [String.append_assoc] using Emits.amount (hsign _) (.absolute ht)
    · exact htext.bind fun t ht => quiet_pure (.amount (by simp) ht)

theorem emitsOne_forIn {target} (htarget : S.valid → ∀ n ∈ target.names, IsIdentifier n)
    (hx : (lowerExpr x).Follows S x) (hbody : FollowsBody S body) (fallback : String) :
    EmitsOne S (emitForIn target (lowerExpr x) (lowerStmts body)) fun stmt =>
      Emits S (.one fallback (.forIn target x body) stmt fallback) := by
  cases target with
  | name name =>
    have hname : S.valid → IsIdentifier name := fun hvalid => htarget hvalid name mem_cons_self
    refine (quiet_reference fun hvalid => (hname hvalid).1).emits fun y hy => ?_
    subst hy
    exact hx.text.emits fun t ht => emitsOne_block hbody fallback fun new =>
      .forIn x (.name hname) ht
  | pair index value =>
    simp only [ForTarget.names, forall_mem_cons, imp_and] at htarget
    refine (quiet_reference fun hvalid => (htarget.1 hvalid).1).emits fun i hi =>
      (quiet_reference fun hvalid => (htarget.2.1 hvalid).1).emits fun v hv => ?_
    subst hi hv
    refine (hx.within _).emits fun t ht => emitsOne_block hbody fallback fun new hnew => ?_
    have htext := @Emits.names S [index, value]
      fun hvalid => by simpa using ⟨htarget.1 hvalid, htarget.2.1 hvalid⟩
    simpa [loopText, String.append_assoc] using
      @Emits.forIn S fallback (.pair index value) x _ _ _ htext (.entries ht) hnew

theorem follows_exprStmt (hx : (lowerExpr x).Follows S x) : FollowsStmt S (.expr x) where
  run sink fallback := by
    have htext : Quiet S (lowerExpr x).text fun t => ∃ r, t = r.within Strength.lowest ∧
        Emits S (.text x r) := hx.written _
    simp only [within_lowest] at htext
    rw [LoweredStmt.run]
    split
    · rename_i hsink
      subst hsink
      change Adds S (if isChoice x then _ else _) _
      split
      · rename_i hchoice
        exact (hx.into .discard).mono fun _ _ => .exprInto hchoice
      · rename_i hchoice
        refine Adds.bind htext fun _ t ht => (adds_emit _).mono fun _ _ hnew => ?_
        obtain ⟨hbefore, r, rfl, hr⟩ := ht
        rw [hnew]
        exact .exprLine (Bool.eq_false_iff.mpr hchoice) hbefore hr
    · rename_i hsink
      change Adds S (if x.needsLifting then _ else _) _
      split
      · rename_i hlifts
        exact (hx.into sink).mono fun _ _ => .exprInto (by rwa [if_neg hsink])
      · rename_i hlifts
        refine Adds.bind htext fun _ t ht => (adds_deliver sink t).mono fun _ _ hnew => ?_
        obtain ⟨hbefore, r, rfl, hr⟩ := ht
        rw [hnew]
        exact .exprText hsink (Bool.eq_false_iff.mpr hlifts) hbefore hr
  value _ h := by cases h; exact hx
  chain := nofun

/-- The `else` part of an `if` adds to its chain. -/
theorem follows_elseChain {otherwise} (h : ∀ stmt ∈ otherwise, FollowsStmt S stmt.kind) :
    FollowsChain S (elseChain otherwise) := by
  unfold elseChain
  split
  · exact (h _ mem_cons_self).chain _ _ _ rfl
  · exact ⟨by simp, by simp, by simp⟩
  · exact ⟨by simp, by simp, by simpa using follows_body h⟩

theorem follows_if {test otherwise} (htest : (lowerExpr test).Follows S test)
    (hbody : FollowsBody S body) (h : ∀ stmt ∈ otherwise, FollowsStmt S stmt.kind) :
    FollowsStmt S (.ifElse test body otherwise) := by
  have helse := follows_elseChain h
  have hchain : FollowsChain S (ifChain test body otherwise) := by
    rw [ifChain_eq]
    exact ⟨forall_mem_cons.mpr ⟨htest, helse.tests⟩,
      forall_mem_cons.mpr ⟨hbody, helse.bodies⟩, helse.last⟩
  refine ⟨fun sink fallback => ?_, nofun, fun _ _ _ heq => by cases heq; exact hchain⟩
  rw [run_ifElse]
  exact (hchain.deliver sink _).mono fun _ _ => .ifElse

end

/-! ## Trees -/

theorem follows_switchChain {S cases}
    (h : ∀ case ∈ cases, (∀ x ∈ case.test, (lowerExpr x).Follows S x) ∧ FollowsBody S case.body) :
    FollowsChain S (testedBranches cases, defaultBody cases) := by
  have hbranch : ∀ branch ∈ testedBranches cases,
      (lowerExpr branch.test).Follows S branch.test ∧ FollowsBody S branch.body := by
    intro branch hbranch
    obtain ⟨case, hcase, hbranch⟩ := List.mem_filterMap.mp hbranch
    obtain ⟨test, htest, rfl⟩ := Option.map_eq_some_iff.mp hbranch
    exact ⟨(h case hcase).1 test htest, (h case hcase).2⟩
  refine ⟨fun branch hmem => (hbranch branch hmem).1,
    fun branch hmem => (hbranch branch hmem).2, ?_⟩
  intro body hbody
  obtain ⟨case, hcase, rfl⟩ := Option.map_eq_some_iff.mp hbody
  exact (h case (List.mem_of_mem_filter (List.mem_of_getLast? hcase))).2

section

variable {S : Scene}

mutual
theorem follows_expr : (x : Expr) → (S.valid → AllValid x.leaves) → (lowerExpr x).Follows S x
  | .ident name, h => by
    simp only [Expr.leaves, allValid_cons, valid_name, imp_and] at h
    refine follows_plain rfl ((quiet_reference fun hvalid => (h.1 hvalid).1).bind fun y hy => ?_)
    subst hy
    exact quiet_pure (.ident h.1)
  | .int value, _ => follows_primary rfl (.int value)
  | .float value, h =>
    follows_primary rfl (.float fun hvalid => h hvalid (.number value) mem_cons_self)
  | .str text, _ => follows_primary rfl (.str text)
  | .color text, _ => follows_primary rfl (.color text)
  | .bool value, _ => follows_primary rfl (.bool value)
  | .na, _ => follows_primary rfl .na
  | .binary op x y, h => by
    simp only [Expr.leaves, allValid_append, imp_and] at h
    exact follows_plain rfl (((follows_expr x h.1).within _).bind fun _ hl =>
      ((follows_expr y h.2).within _).bind fun _ hr => quiet_pure (.binary op x y hl hr))
  | .unary op x, h =>
    follows_plain rfl (((follows_expr x h).within _).bind fun _ ht => quiet_pure (.unary op x ht))
  | .ternary x y z, h => by
    simp only [Expr.leaves, allValid_append, imp_and] at h
    refine follows_plain rfl (((follows_expr x h.1.1).within _).bind fun _ ht => ?_)
    refine ((follows_expr y h.1.2).written _).bind fun _ hy => ?_
    refine ((follows_expr z h.2).written _).bind fun _ hz => quiet_pure ?_
    obtain ⟨a, rfl, hy⟩ := hy
    obtain ⟨b, rfl, hz⟩ := hz
    exact .ternary x ht hy hz
  | .call callee types args, h => by
    simp only [Expr.leaves, allValid_append, imp_and] at h
    have hargs := follows_arguments args h.2
    have hcallee := follows_expr callee h.1
    match callee with
    | .member base property =>
      simp only [Expr.leaves, allValid_cons, valid_property, imp_and] at h
      exact follows_plain rfl
        (quiet_memberCall base (follows_expr base h.1.2.2) h.1.2.1 types args hargs)
    | .ident _ | .int _ | .float _ | .str _ | .color _ | .bool _ | .na | .binary _ _ _
    | .unary _ _ | .ternary _ _ _ | .call _ _ _ | .history _ _ | .tuple _ | .conditional _ _ _
    | .switch _ _ _ =>
      exact follows_plain rfl ((hcallee.within _).bind fun _ ht =>
        quiet_applied _ types args ht (by simp) hargs)
  | .member base property, h => by
    simp only [Expr.leaves, allValid_cons, valid_property, imp_and] at h
    exact follows_plain rfl (((follows_expr base h.2.2).within _).bind fun _ ht =>
      quiet_pure (.member base h.2.1 ht))
  | .history x y, h => by
    simp only [Expr.leaves, allValid_append, imp_and] at h
    exact follows_plain rfl (((follows_expr x h.1).within _).bind fun _ ht =>
      (follows_expr y h.2).text.bind fun _ ho => quiet_pure (.history x y ht ho))
  | .tuple xs, h =>
    follows_plain rfl ((quiet_mapM (follows_exprs xs h)).bind fun _ hts =>
      quiet_pure (.tuple xs hts))
  | .conditional branches none lifts, h => by
    simp only [Expr.leaves, append_nil] at h
    obtain ⟨htests, hbodies⟩ := follows_branches branches h
    exact follows_conditional ⟨htests, hbodies, by simp⟩ lifts
  | .conditional branches (some body) lifts, h => by
    simp only [Expr.leaves, allValid_append, imp_and] at h
    obtain ⟨htests, hbodies⟩ := follows_branches branches h.1
    exact follows_conditional ⟨htests,
      hbodies, by simpa using follows_body (follows_stmts body h.2)⟩ lifts
  | .switch none cases lifts, h => by
    simp only [Expr.leaves, List.nil_append] at h
    exact follows_switch (by simp) (follows_switchChain (follows_cases cases h)) lifts
  | .switch (some x) cases lifts, h => by
    simp only [Expr.leaves, allValid_append, imp_and] at h
    exact follows_switch (by simpa using follows_expr x h.1)
      (follows_switchChain (follows_cases cases h.2)) lifts

theorem follows_exprs : (xs : List Expr) → (S.valid → AllValid (exprLeaves xs)) →
    ∀ e ∈ lowerExprs xs, Phrases S (e.within Strength.argument)
  | [], _ => by simp [lowerExprs]
  | x :: xs, h => by
    simp only [exprLeaves, allValid_append, imp_and] at h
    exact forall_mem_cons.mpr ⟨(follows_expr x h.1).within _, follows_exprs xs h.2⟩

theorem follows_expr? : (x : Option Expr) → (S.valid → AllValid (optionLeaves x)) →
    ∀ e ∈ lowerExpr? x, Phrases S e.text
  | none, _ => by simp [lowerExpr?]
  | some x, h => by simpa [lowerExpr?] using (follows_expr x h).text

theorem follows_arguments : (args : List Argument) → (S.valid → AllValid (argumentLeaves args)) →
    ∀ arg ∈ lowerArguments args, arg.Follows S
  | [], _ => by simp [lowerArguments]
  | ⟨name, value⟩ :: args, h => by
    simp only [argumentLeaves, allValid_append, imp_and] at h
    refine forall_mem_cons.mpr ⟨⟨fun hvalid n hn => ?_, (follows_expr value h.1.2).within _⟩,
      follows_arguments args h.2⟩
    exact h.1.1 hvalid (.property n) (List.mem_map_of_mem (Option.mem_toList.mpr hn))

theorem follows_branches : (branches : List Branch) → (S.valid → AllValid (branchLeaves branches)) →
    (∀ branch ∈ branches, (lowerExpr branch.test).Follows S branch.test) ∧
      ∀ branch ∈ branches, FollowsBody S branch.body
  | [], _ => by simp
  | ⟨test, body⟩ :: rest, h => by
    simp only [branchLeaves, allValid_append, imp_and] at h
    obtain ⟨htests, hbodies⟩ := follows_branches rest h.2
    exact ⟨forall_mem_cons.mpr ⟨follows_expr test h.1.1, htests⟩,
      forall_mem_cons.mpr ⟨follows_body (follows_stmts body h.1.2), hbodies⟩⟩

theorem follows_cases : (cases : List Case) → (S.valid → AllValid (caseLeaves cases)) →
    ∀ case ∈ cases, (∀ x ∈ case.test, (lowerExpr x).Follows S x) ∧ FollowsBody S case.body
  | [], _ => by simp
  | ⟨none, body⟩ :: rest, h => by
    simp only [caseLeaves, allValid_append, imp_and] at h
    exact forall_mem_cons.mpr ⟨⟨by simp, follows_body (follows_stmts body h.1.2)⟩,
      follows_cases rest h.2⟩
  | ⟨some test, body⟩ :: rest, h => by
    simp only [caseLeaves, allValid_append, imp_and] at h
    exact forall_mem_cons.mpr ⟨⟨by simpa using follows_expr test h.1.1,
      follows_body (follows_stmts body h.1.2)⟩, follows_cases rest h.2⟩

theorem follows_params : (params : List Param) → (S.valid → AllValid (paramLeaves params)) →
    ∀ param ∈ lowerParams params, param.Follows S
  | [], _ => by simp [lowerParams]
  | ⟨name, _, default⟩ :: params, h => by
    simp only [paramLeaves, allValid_cons, allValid_append, valid_name, imp_and] at h
    exact forall_mem_cons.mpr ⟨⟨h.1, follows_expr? default h.2.1⟩, follows_params params h.2.2⟩

theorem follows_fields : (fields : List Field) → (S.valid → AllValid (fieldLeaves fields)) →
    ∀ field ∈ lowerFields fields, field.Follows S
  | [], _ => by simp [lowerFields]
  | ⟨name, _, default⟩ :: fields, h => by
    simp only [fieldLeaves, allValid_cons, allValid_append, valid_property, imp_and] at h
    exact forall_mem_cons.mpr ⟨⟨h.1, follows_expr? default h.2.1⟩, follows_fields fields h.2.2⟩

theorem follows_stmt : (kind : StmtKind) → (S.valid → AllValid kind.leaves) → FollowsStmt S kind
  | .varDecl mode type target init, h => by
    simp only [StmtKind.leaves, allValid_append, allValid_names, imp_and] at h
    exact follows_declaration mode type h.1 (follows_expr init h.2)
  | .reassign target op value, h => by
    simp only [StmtKind.leaves, allValid_cons, allValid_append, imp_and] at h
    exact follows_reassign op (follows_expr target h.2.1) (follows_expr value h.2.2)
  | .function name kind params body exported, h => by
    simp only [StmtKind.leaves, allValid_cons, allValid_append, valid_name, imp_and] at h
    refine follows_ofEffect rfl nofun nofun fun fallback =>
      (quiet_reference fun hvalid => (h.1 hvalid).1).emits fun y hy => ?_
    subst hy
    exact (quiet_mapM fun param hparam => (follows_params params h.2.1 param hparam).text).emits
      fun _ hts => emitsOne_block (follows_body (follows_stmts body h.2.2)) fallback
        fun _ => .function kind params exported h.1 hts
  | .typeDecl name fields exported, h => by
    simp only [StmtKind.leaves, allValid_cons, valid_name, imp_and] at h
    exact follows_ofEffect rfl nofun nofun
      (emitsOne_type h.1 fields exported (follows_fields fields h.2))
  | .ifElse test body otherwise, h => by
    simp only [StmtKind.leaves, allValid_append, imp_and] at h
    exact follows_if (follows_expr test h.1.1) (follows_body (follows_stmts body h.1.2))
      (follows_stmts otherwise h.2)
  | .forRange counter start stop step body, h => by
    simp only [StmtKind.leaves, allValid_cons, allValid_append, valid_name, imp_and] at h
    have hstep : ∀ s ∈ step.map fun value => (value, lowerExpr value), Phrases S s.2.text := by
      match step with
      | none => simp
      | some value => simpa using (follows_expr value h.2.1.2).text
    have hlower : lowerStmt (.forRange counter start stop step body) =
        .ofEffect (emitForRange counter (start, lowerExpr start) (stop, lowerExpr stop)
          (step.map fun value => (value, lowerExpr value)) (lowerStmts body)) := by
      cases step <;> rfl
    refine follows_ofEffect hlower nofun nofun fun fallback =>
      (quiet_reference fun hvalid => (h.1 hvalid).1).emits fun y hy => ?_
    subst hy
    refine (follows_expr start h.2.1.1.1).text.emits fun a ha => ?_
    refine (follows_expr stop h.2.1.1.2).text.emits fun b hb => ?_
    refine (quiet_loopStep _ hstep).emits fun update hupdate => ?_
    exact emitsOne_block (follows_body (follows_stmts body h.2.2)) fallback fun _ =>
      .forRange start stop step h.1 ha hb hupdate
  | .forIn target iterable body, h => by
    simp only [StmtKind.leaves, allValid_append, allValid_names, imp_and] at h
    exact follows_ofEffect rfl nofun nofun (emitsOne_forIn h.1.1.1 (follows_expr iterable h.1.2)
      (follows_body (follows_stmts body h.2)))
  | .whileLoop test body, h => by
    simp only [StmtKind.leaves, allValid_append, imp_and] at h
    refine follows_ofEffect rfl nofun nofun fun fallback => ?_
    refine (follows_expr test h.1).text.emits fun t ht => ?_
    exact emitsOne_block (follows_body (follows_stmts body h.2)) fallback fun _ =>
      .whileLoop test ht
  | .ret none, _ =>
    follows_ofEffect rfl nofun nofun fun fallback => emitsOne_emit (.retNone fallback)
  | .ret (some x), h => follows_ofEffect rfl nofun nofun fun fallback =>
      (follows_expr x h).text.emits fun _ ht => emitsOne_emit (.ret fallback x ht)
  | .breakLoop, _ =>
    follows_ofEffect rfl nofun nofun fun fallback => emitsOne_emit (.breakLoop fallback)
  | .continueLoop, _ =>
    follows_ofEffect rfl nofun nofun fun fallback => emitsOne_emit (.continueLoop fallback)
  | .expr value, h => follows_exprStmt (follows_expr value h)

theorem follows_stmts : (body : List Stmt) → (S.valid → AllValid (stmtLeaves body)) →
    ∀ stmt ∈ body, FollowsStmt S stmt.kind
  | [], _ => by simp
  | ⟨kind, _⟩ :: rest, h => by
    simp only [stmtLeaves, allValid_append, imp_and] at h
    exact forall_mem_cons.mpr ⟨follows_stmt kind h.1, follows_stmts rest h.2⟩
end

end

end IndicatorCompiler.Lowering
