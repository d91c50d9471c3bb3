import IndicatorCompiler.Proofs.Normalized
import IndicatorCompiler.Proofs.TreeChecks

/-!
# Normalising twice

A body in normal form can be normalised again: that takes no temporary, and it gives the same body
unless a declaration takes a function apart.  Then the function is declared under a temporary, which
only the second run makes the declaration of a function.
-/

namespace IndicatorCompiler.NormalForm

open Script

/-- The binding does not take a function apart. -/
def leavesFunction : Declarator → Bool
  | ⟨.ident _, _⟩ => true
  | ⟨_, some (.function _)⟩ => false
  | _ => true

/-- No declaration takes a function apart. -/
def functionsWhole : Check where
  function _ := true
  stmt
    | .var _ decls => decls.all leavesFunction
    | _ => true

/-! ## Steps that give back what they are given -/

/-- The step succeeds and leaves the scopes; its result is `a` if `p` holds. -/
def Again {α : Type} (s : Scopes) (p : Prop) (x : Normalizing α) (a : α) : Prop :=
  ∃ b, Succeeds x s b s ∧ (p → b = a)

section

variable {α β γ δ : Type} {s : Scopes} {p : Prop} {x : Normalizing α} {y : Normalizing β}
  {z : Normalizing γ} {a : α} {b : β} {c : γ}

theorem again_pure_of {a'} (h : p → a' = a) : Again s p (pure a') a :=
  ⟨a', succeeds_pure_iff.mpr ⟨rfl, rfl⟩, h⟩

theorem again_pure : Again s p (pure a) a := again_pure_of fun _ => rfl

theorem Again.bind {f : α → Normalizing β} (hx : Again s p x a)
    (hf : ∀ a', (p → a' = a) → Again s p (f a') b) : Again s p (x >>= f) b := by
  obtain ⟨a', hx, ha⟩ := hx
  obtain ⟨b', hf, hb⟩ := hf a' ha
  exact ⟨b', succeeds_bind_iff.mpr ⟨a', s, hx, hf⟩, hb⟩

theorem Again.map {F : α → δ} (hx : Again s p x a) : Again s p (x >>= fun a => pure (F a)) (F a) :=
  hx.bind fun _ ha => again_pure_of fun hp => by rw [ha hp]

theorem Again.map₂ {F : α → β → δ} (hx : Again s p x a) (hy : Again s p y b) :
    Again s p (x >>= fun a => y >>= fun b => pure (F a b)) (F a b) :=
  hx.bind fun _ ha => hy.bind fun _ hb => again_pure_of fun hp => by rw [ha hp, hb hp]

theorem Again.map₃ {F : α → β → γ → δ} (hx : Again s p x a) (hy : Again s p y b)
    (hz : Again s p z c) :
    Again s p (x >>= fun a => y >>= fun b => z >>= fun c => pure (F a b c)) (F a b c) :=
  hx.bind fun _ ha => hy.bind fun _ hb => hz.bind fun _ hc =>
    again_pure_of fun hp => by rw [ha hp, hb hp, hc hp]

theorem fst_of_and {a b} (h : p → (a && b) = true) : p → a = true :=
  fun hp => (Bool.and_eq_true_iff.mp (h hp)).1

theorem snd_of_and {a b} (h : p → (a && b) = true) : p → b = true :=
  fun hp => (Bool.and_eq_true_iff.mp (h hp)).2

end

/-! ## Statements -/

section

variable {s : Scopes} {p : Prop} {stmts : List Stmt}

/-- Each statement is given back. -/
def AllAgain (s : Scopes) (p : Prop) (stmts : List Stmt) : Prop :=
  ∀ stmt ∈ stmts, Again s p (normalStmt stmt) [stmt]

theorem AllAgain.single {stmt} (h : Again s p (normalStmt stmt) [stmt]) : AllAgain s p [stmt] :=
  List.forall_mem_singleton.mpr h

theorem AllAgain.append {more} (h : AllAgain s p stmts) (hmore : AllAgain s p more) :
    AllAgain s p (stmts ++ more) :=
  List.forall_mem_append.mpr ⟨h, hmore⟩

theorem AllAgain.list (h : AllAgain s p stmts) : Again s p (normalStmts stmts) stmts := by
  induction stmts with
  | nil => exact again_pure
  | cons stmt stmts ih =>
    obtain ⟨hfirst, hrest⟩ := List.forall_mem_cons.mp h
    exact Again.map₂ (F := (· ++ ·)) hfirst (ih hrest)

theorem asBlock_asBlock (stmts : List Stmt) : asBlock [asBlock stmts] = asBlock stmts := by
  fun_cases asBlock stmts <;> rfl

theorem asAlternate_asAlternate (stmts : List Stmt) :
    asAlternate [asAlternate stmts] = asAlternate stmts := by
  fun_cases asAlternate stmts with
  | case1 => rfl
  | case2 stmts => fun_cases asBlock stmts <;> rfl

/-- The block that statements make is given back. -/
theorem AllAgain.asBlock (h : AllAgain s p stmts) :
    Again s p (normalStmt (asBlock stmts)) [NormalForm.asBlock stmts] := by
  fun_cases NormalForm.asBlock stmts with
  | case1 body => exact h _ List.mem_cons_self
  | case2 stmts => exact Again.map (F := fun body => [Stmt.block body]) h.list

theorem AllAgain.asAlternate (h : AllAgain s p stmts) :
    Again s p (normalStmt (asAlternate stmts)) [NormalForm.asAlternate stmts] := by
  fun_cases NormalForm.asAlternate stmts with
  | case1 test consequent alternate => exact h _ List.mem_cons_self
  | case2 stmts => exact h.asBlock

/-- A name is declared with a value that is no function, or with one that need not be given back. -/
theorem again_declared {kind x init} (h : Again s p (normalExpr? init) init)
    (hvalue : p → ∀ f, init ≠ some (.function f)) :
    Again s p (normalStmt (declared kind (.ident x) init)) [declared kind (.ident x) init] := by
  simp only [declared, normalStmt]
  unfold normalDeclarators
  split
  · rename_i y f heq
    obtain ⟨_, hrun, -⟩ := h
    simp only [normalExpr?, normalExpr, succeeds_bind_iff, succeeds_pure_iff] at hrun
    obtain ⟨_, _, ⟨g, _, hg, rfl, rfl⟩, -, rfl⟩ := hrun
    refine Again.bind (a := g) ⟨g, hg, fun _ => rfl⟩ fun f' _ => ?_
    obtain ⟨_, _, _, _⟩ := f'
    exact again_pure.bind fun _ _ => again_pure.bind fun _ _ =>
      again_pure_of fun hp => absurd rfl (hvalue hp f)
  · rename_i y heq _
    cases heq
    exact h.bind fun _ hi => again_pure.bind fun _ hs => again_pure.bind fun _ hr =>
      again_pure_of fun hp => by rw [hs hp, hr hp, hi hp]; rfl
  · rename_i hident
    exact absurd rfl (hident x)
  · rename_i hident
    exact absurd rfl (hident x)

theorem again_forLoop {init init' test update body} (hi : p → init' = init)
    (ht : Again s p (normalExpr? test) test) (hu : Again s p (normalExpr? update) update)
    (hb : Again s p (normalStmt body) [body]) (hblock : asBlock [body] = body) : Again s p (do
      let test ← normalExpr? test
      let update ← normalExpr? update
      return [Stmt.forLoop init' test update (asBlock (← normalStmt body))])
      [.forLoop init test update body] :=
  ht.bind fun _ ht => hu.bind fun _ hu => hb.bind fun _ hb => again_pure_of fun hp => by
    rw [hi hp, ht hp, hu hp, hb hp, hblock]

end

/-! ## Normal forms -/

section

variable {s : Scopes} {p : Prop}

theorem normalExpr_ne_function {root e e'} (h : NormalExpr root e e') (he : ∀ f, e ≠ .function f) :
    ∀ f, e' ≠ .function f := by
  cases h with
  | function => exact absurd rfl (he _)
  | _ => exact nofun

theorem every_loopParts {c init test update body}
    (h : (Stmt.forLoop init test update body).every c = true) :
    everyExpr? c test = true ∧ everyExpr? c update = true ∧ body.every c = true := by
  cases init with
  | none | some init =>
    simp only [Stmt.every, Bool.and_eq_true] at h
    exact ⟨h.1.1.2, h.1.2, h.2⟩

theorem ne_function_of_leaves {pattern init} (hpattern : ∀ x, pattern ≠ .ident x)
    (h : leavesFunction ⟨pattern, some init⟩ = true) : ∀ f, init ≠ .function f := by
  rintro f rfl
  cases pattern with
  | ident x => exact hpattern x rfl
  | _ => cases h

mutual
/-- What is in normal form is given back. -/
theorem again_expr {e e'} : NormalExpr s.rootName e e' →
    (p → e.every functionsWhole = true) → Again s p (normalExpr e') e'
  | .ident _, _ | .lit _, _ => again_pure
  | .array hs, h | .sequence hs, h => (again_exprs hs h).map
  | .object hs, h => (again_properties hs h).map
  | @NormalExpr.function _ _ ⟨name, _, _, arrow⟩ hf, h => (again_function hf h name arrow).map
  | .unary _ he, h | .update _ _ he, h | .spread he, h => (again_expr he h).map
  | .binary _ hl hr, h => (again_expr hl (fst_of_and h)).map₂ (again_expr hr (snd_of_and h))
  | .assign _ ht hv, h => (again_expr ht (fst_of_and h)).map₂ (again_expr hv (snd_of_and h))
  | .conditional ht hc ha, h => (again_expr ht (fst_of_and (fst_of_and h))).map₃
    (again_expr hc (snd_of_and (fst_of_and h))) (again_expr ha (snd_of_and h))
  | .call hf hs, h
  | .new hf hs, h => (again_expr hf (fst_of_and h)).map₂ (again_exprs hs (snd_of_and h))
  | .member _ he, h => (again_expr he h).map
  | .index hb hi, h => (again_expr hb (fst_of_and h)).map₂ (again_expr hi (snd_of_and h))
termination_by structural e

theorem again_exprs {es es'} : NormalExprs s.rootName es es' →
    (p → everyExpr functionsWhole es = true) → Again s p (normalExprs es') es'
  | .nil, _ => again_pure
  | .cons he hs, h => (again_expr he (fst_of_and h)).map₂ (again_exprs hs (snd_of_and h))
termination_by structural es

theorem again_expr? {e e'} : NormalExpr? s.rootName e e' →
    (p → everyExpr? functionsWhole e = true) → Again s p (normalExpr? e') e'
  | .none, _ => again_pure
  | .some he, h => (again_expr he h).map
termination_by structural e

theorem again_properties {ps ps'} : NormalProperties s.rootName ps ps' →
    (p → everyProperty functionsWhole ps = true) → Again s p (normalProperties ps') ps'
  | .nil, _ => again_pure
  | .cons _ (.name _) hv hs, h
  | .cons _ (.str _) hv hs, h => again_pure.map₃ (again_expr hv (snd_of_and (fst_of_and h)))
    (again_properties hs (snd_of_and h))
  | .cons _ (.computed hk) hv hs, h => (again_expr hk (fst_of_and (fst_of_and h))).bind
    fun _ hkey => again_pure.bind fun _ hk => (again_expr hv (snd_of_and (fst_of_and h))).bind
      fun _ hv => (again_properties hs (snd_of_and h)).bind fun _ hs => again_pure_of fun hp => by
        rw [hk hp, hkey hp, hv hp, hs hp]
termination_by structural ps

theorem again_function {f f'} : NormalFunction s.rootName f f' →
    (p → f.every functionsWhole = true) → (name : Option String) → (arrow : Bool) →
    Again s p (normalFunction ⟨name, f'.params, f'.body, arrow⟩) ⟨name, f'.params, f'.body, arrow⟩
  | .block _ _ _ hs, h, _, _ => (again_stmts hs (snd_of_and h)).list.map
  | .expr _ _ _ he, h, _, _ =>
    (AllAgain.single (Again.map (Again.map (F := some) (again_expr he (snd_of_and h))))).list.map
termination_by structural f

theorem again_stmt {stmt stmts} : NormalStmt s.rootName stmt stmts →
    (p → stmt.every functionsWhole = true) → AllAgain s p stmts
  | .var hs, h => again_declarators hs (fst_of_and h) (snd_of_and h)
  | @NormalStmt.function _ _ ⟨name, _, _, arrow⟩ hf, h =>
    .single (again_function hf (snd_of_and h) name arrow).map
  | .ret he, h => .single (again_expr? he (snd_of_and h)).map
  | .ifThen ht hc, h => .single ((again_expr ht (snd_of_and (fst_of_and (fst_of_and h)))).bind
      fun _ ht => (again_stmt hc (snd_of_and (fst_of_and h))).asBlock.bind fun _ hc =>
        again_pure.bind fun _ ha => again_pure_of
          fun hp => by rw [ht hp, hc hp, ha hp, asBlock_asBlock])
  | .ifElse ht hc ha, h => .single ((again_expr ht (snd_of_and (fst_of_and (fst_of_and h)))).bind
      fun _ ht => (again_stmt hc (snd_of_and (fst_of_and h))).asBlock.bind fun _ hc =>
        (again_stmt ha (snd_of_and h)).asAlternate.bind fun _ ha => again_pure.bind fun _ hsome =>
          again_pure_of fun hp => by
            rw [ht hp, hc hp, hsome hp, ha hp, asBlock_asBlock, asAlternate_asAlternate])
  | .forLoop hi ht hu hb, h =>
    .single (again_init hi h (again_expr? ht fun hp => (every_loopParts (h hp)).1)
      (again_expr? hu fun hp => (every_loopParts (h hp)).2.1)
      (again_stmt hb fun hp => (every_loopParts (h hp)).2.2).asBlock (asBlock_asBlock _))
  | .forEach _ _ _ hr hb, h => .single ((again_expr hr (snd_of_and (fst_of_and h))).bind
      fun _ hr => (again_stmt hb (snd_of_and h)).asBlock.bind fun _ hb => again_pure_of fun hp => by
        rw [hr hp, hb hp, asBlock_asBlock])
  | .whileLoop ht hb, h => .single ((again_expr ht (snd_of_and (fst_of_and h))).bind
      fun _ ht => (again_stmt hb (snd_of_and h)).asBlock.bind fun _ hb => again_pure_of fun hp => by
        rw [ht hp, hb hp, asBlock_asBlock])
  | .block hs, h => .single (again_stmts hs (snd_of_and h)).list.map
  | .expr he, h => .single (again_expr he (snd_of_and h)).map
  | .empty, _ => nofun
  | .breakLoop, _ | .continueLoop, _ => .single again_pure
termination_by structural stmt

theorem again_stmts {stmts stmts'} : NormalStmts s.rootName stmts stmts' →
    (p → everyStmt functionsWhole stmts = true) → AllAgain s p stmts'
  | .nil, _ => nofun
  | .cons h hs, hp => (again_stmt h (fst_of_and hp)).append (again_stmts hs (snd_of_and hp))
termination_by structural stmts

theorem again_init {init init'} : NormalInit? s.rootName init init' →
    {test₀ update₀ : Option Expr} → {body₀ : Stmt} →
    (p → (Stmt.forLoop init test₀ update₀ body₀).every functionsWhole = true) →
    {test update : Option Expr} → {body : Stmt} → Again s p (normalExpr? test) test →
    Again s p (normalExpr? update) update → Again s p (normalStmt body) [body] →
    asBlock [body] = body →
    Again s p (normalStmt (.forLoop init' test update body)) [.forLoop init' test update body]
  | .none, _, _, _, _, _, _, _, ht, hu, hb, hblock =>
    again_pure.bind fun _ hi => again_forLoop hi ht hu hb hblock
  | .declare _ hs, _, _, _, h, _, _, _, ht, hu, hb, hblock =>
    (again_bindings hs (snd_of_and (fst_of_and (fst_of_and (fst_of_and h))))).map.bind
      fun _ hi => again_pure.bind fun _ hsome =>
        again_forLoop (fun hp => by rw [hsome hp, hi hp]) ht hu hb hblock
  | .expr he, _, _, _, h, _, _, _, ht, hu, hb, hblock =>
    (again_expr he (snd_of_and (fst_of_and (fst_of_and (fst_of_and h))))).map.bind
      fun _ hi => again_pure.bind fun _ hsome =>
        again_forLoop (fun hp => by rw [hsome hp, hi hp]) ht hu hb hblock
termination_by structural init

theorem again_bindings {ds ds'} : NormalBindings s.rootName ds ds' →
    (p → everyDeclarator functionsWhole ds = true) → Again s p (normalLoopDeclarators ds') ds'
  | .nil, _ => again_pure
  | .cons _ he hs, h => (again_expr? he (snd_of_and (fst_of_and h))).map₂
    (again_bindings hs (snd_of_and h))
termination_by structural ds

theorem again_declarators {kind ds stmts} :
    NormalDeclarators s.rootName kind ds stmts → (p → ds.all leavesFunction = true) →
    (p → everyDeclarator functionsWhole ds = true) → AllAgain s p stmts
  | .nil _, _, _ => nofun
  | .cons (d := ⟨_, _⟩) hd hs, hleaves, h =>
    (again_declarator hd (fst_of_and hleaves) (fst_of_and h)).append
      (again_declarators hs (snd_of_and hleaves) (snd_of_and h))
termination_by structural ds

theorem again_declarator {kind d stmts} :
    NormalDeclarator s.rootName kind d stmts → (p → leavesFunction d = true) →
    (p → (d.id.every functionsWhole && everyExpr? functionsWhole d.init) = true) →
      AllAgain s p stmts
  | .function x hf, _, h => .single (again_function hf (snd_of_and h) (some x) false).map
  | .name x hvalue he, _, h => by
    refine .single (again_declared (again_expr? he (snd_of_and h)) fun _ => ?_)
    cases he with
    | none => exact nofun
    | some he =>
      have hne := normalExpr_ne_function he fun f hf => hvalue f (congrArg some hf)
      exact fun f hf => hne f (Option.some.inj hf)
  | .takenOff pattern hpattern hrooted, _, _ => by
    refine .single ⟨[declared kind pattern (some _)], ?_, fun _ => rfl⟩
    cases pattern with
    | ident x => exact absurd rfl (hpattern x)
    | _ => simp [declared, normalStmt, normalDeclarators, hrooted]
  | @NormalDeclarator.split _ _ n _ _ init' _ hpattern _ he hs, hleaves, h => by
    have hvalue : Again s p (normalExpr? (some init')) (some init') :=
      Again.map (F := some) (again_expr he (snd_of_and h))
    have hne (hp : p) := normalExpr_ne_function he (ne_function_of_leaves hpattern (hleaves hp))
    have htemp := @again_declared s p .constant (SlotForm.tempName n) _ hvalue fun hp f hf =>
      hne hp f (Option.some.inj hf)
    exact (AllAgain.single htemp).append (again_expanded hs again_pure nofun (fst_of_and h))
termination_by structural d

theorem again_expanded {kind source pattern stmts} :
    Expanded s.rootName kind source pattern stmts → Again s p (normalExpr source) source →
    (∀ f, source ≠ .function f) → (p → pattern.every functionsWhole = true) → AllAgain s p stmts
  | .ident x, hs, hne, _ => .single (again_declared hs.map fun _ f hf => hne f (Option.some.inj hf))
  | .withDefault hv he, hs, _, h => again_expanded he (hs.map₂ (again_expr hv (snd_of_and h))) nofun
    (fst_of_and h)
  | .array he, hs, _, h => again_expandedItems he hs h
  | .object he, hs, _, h => again_expandedProperties he hs h
termination_by structural pattern

theorem again_expandedItems {kind source i items stmts} :
    ExpandedItems s.rootName kind source i items stmts →
    Again s p (normalExpr source) source → (p → everyItem functionsWhole items = true) →
    AllAgain s p stmts
  | .nil _ _ _, _, _ => nofun
  | .hole hmore, hs, h => again_expandedItems hmore hs h
  | .rest he hmore, hs, h => (again_expanded he (hs.map.map₂ (again_pure.map₂ again_pure)) nofun
      (fst_of_and h)).append (again_expandedItems hmore hs (snd_of_and h))
  | .item he hmore, hs, h => (again_expanded he (hs.map₂ again_pure) nofun (fst_of_and h)).append
      (again_expandedItems hmore hs (snd_of_and h))
termination_by structural items

theorem again_expandedProperties {kind source ps stmts} :
    ExpandedProperties s.rootName kind source ps stmts →
    Again s p (normalExpr source) source → (p → everyPatternProperty functionsWhole ps = true) →
    AllAgain s p stmts
  | .nil _ _, _, _ => nofun
  | .cons _ he hmore, hs, h => (again_expanded he hs.map nofun (fst_of_and h)).append
    (again_expandedProperties hmore hs (snd_of_and h))
termination_by structural ps
end

end

/-- **Normalising twice.**  A normal form can be normalised again in any scopes with the same
context parameter.  The scopes hand out no name, and the body stays the same unless a declaration of
the source takes a function apart. -/
theorem normalBody_again {body body' : List Stmt} {s s' t : Scopes}
    (h : normalBody body s = .ok (body', s')) (ht : t.rootName = s.rootName) :
    ∃ body'', normalBody body' t = .ok (body'', t) ∧
      (everyStmt functionsWhole body = true → body'' = body') := by
  let kept : TempInvariant s.rootName := ⟨(·.rootName = s.rootName), fun _ h => h, fun _ h => h⟩
  obtain ⟨-, hnormal⟩ := yields_normalStmts kept body rfl h
  rw [← ht] at hnormal
  exact (again_stmts hnormal id).list

/-- Nested functions, chains of `if`, loops, and declarations that take values apart. -/
def mixedBody : List Stmt :=
  [.var .lexical
    [⟨.array [some (.withDefault (.ident "a") (.function ⟨none, [], .expr (.ident "v"), true⟩)),
      none, some (.rest (.ident "r"))], some (.ident "v")⟩, ⟨.object [⟨"c", .ident "c"⟩],
      some (.member (.ident "$") "pine")⟩],
    .ifElse (.ident "a") (.expr (.ident "c"))
      (some (.ifElse (.ident "r") .empty (some (.ret none)))),
    .var .constant [⟨.ident "f", some (.function ⟨none, [], .expr (.ident "a"), true⟩)⟩],
    .whileLoop (.ident "a") (.var .lexical [⟨.object [⟨"x", .ident "x"⟩], some (.ident "r")⟩])]

theorem mixedBody_again : everyStmt functionsWhole mixedBody = true ∧ ∃ body s,
    normalBody mixedBody (.ofRoot "$") = .ok (body, s) ∧ body.length = 7 ∧
      ∀ t : Scopes, t.rootName = "$" → normalBody body t = .ok (body, t) := by
  obtain ⟨⟨body, s⟩, hrun, hlength⟩ : ∃ r, normalBody mixedBody (.ofRoot "$") = .ok r ∧
      decide (r.1.length = 7) = true := eq_ok_of_any (by decide +kernel)
  have hwhole : everyStmt functionsWhole mixedBody = true := by decide
  refine ⟨hwhole, body, s, hrun, of_decide_eq_true hlength, fun t ht => ?_⟩
  obtain ⟨body'', hagain, heq⟩ := normalBody_again hrun ht
  rwa [heq hwhole] at hagain

/-- A function that is taken apart is declared under a temporary, first as a value and then as a
function. -/
theorem normalBody_again_functionApart : ∃ body body' s,
    normalBody [.var .lexical [⟨.object [⟨"a", .ident "a"⟩],
      some (.function ⟨none, [], .expr (.ident "v"), true⟩)⟩]] (.ofRoot "$") = .ok (body, s) ∧
      normalBody body s = .ok (body', s) ∧ body' ≠ body :=
  ⟨[declared .constant (.ident "_tmp0")
      (some (.function ⟨none, [], .block [.ret (some (.ident "v"))], true⟩)),
    declared .lexical (.ident "a") (some (.member (.ident "_tmp0") "a"))],
    [.function ⟨some "_tmp0", [], .block [.ret (some (.ident "v"))], false⟩,
      declared .lexical (.ident "a") (some (.member (.ident "_tmp0") "a"))], _, rfl, rfl, nofun⟩

end IndicatorCompiler.NormalForm
