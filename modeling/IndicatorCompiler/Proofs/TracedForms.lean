import IndicatorCompiler.Proofs.Calm
import IndicatorCompiler.Proofs.Tracing

/-!
# Sights of slot forms

What a walk inserts has sights of its own: identities, captures and slots.  A slot that a statement
initialises, and a constant that it declares, are in reach behind it.
-/

namespace IndicatorCompiler.SlotForm

open Script

section

variable {cut : Bool} {γ : List Sight}

/-- The sights of an expression that are out of reach. -/
abbrev seen (cut : Bool) (e : Expr) (γ : List Sight) : List Sight := e.observe (placedSights cut) γ

/-- The sights of expressions that are out of reach. -/
abbrev seenAll (cut : Bool) (es : List Expr) (γ : List Sight) : List Sight :=
  observeExprs (placedSights cut) γ es

theorem seen_antitone (e : Expr) : Antitone (seen cut e) :=
  fun _ _ h => (placedSights_compares cut).expr e h

theorem mem_seenAll {es s} : s ∈ seenAll cut es γ ↔ ∃ e ∈ es, s ∈ seen cut e γ := by
  induction es with
  | nil => simp [seenAll, observeExprs]
  | cons e es ih => simp [seenAll, observeExprs, ← ih]

/-- Only names of captures count. -/
theorem fewer_name {x} (h : ∀ n, x ≠ captureName n) (γ : List Sight) :
    Fewer (seen cut (.ident x) γ) [] := by
  have hseen : seen cut (.ident x) γ = if .name x ∈ γ then [] else [.name x] := rfl
  rw [hseen]
  split
  · exact .refl []
  · exact ⟨by simp, by simp, fun n => by simp [h n], by simp⟩

theorem context_ne_captureName (n : Nat) : contextName ≠ captureName n :=
  ne_captureName (by simp [contextName]) n

theorem fewer_undefined (γ : List Sight) : Fewer (seen cut .undefined γ) [] :=
  fewer_name (ne_captureName (by simp)) γ

theorem mem_seen_contextMember {x s} (h : s ∈ seen cut (.member (.ident contextName) x) γ) :
    s = .name contextName := by
  change s ∈ if .name contextName ∈ γ then [] else [.name contextName] at h
  split at h
  · cases h
  · exact List.mem_singleton.mp h

theorem fewer_contextMember (x : String) (γ : List Sight) :
    Fewer (seen cut (.member (.ident contextName) x) γ) [] :=
  show Fewer (seen cut (.ident contextName) γ) [] from fewer_name context_ne_captureName γ

theorem fewer_contextCall (method : String) (args : List Expr) (γ : List Sight) :
    Fewer (seen cut (contextCall method args) γ) (seenAll cut args γ) :=
  (fewer_contextMember method γ).append (.refl _)

theorem fewer_readAt (target offset : Expr) (γ : List Sight) :
    Fewer (seen cut (readAt target offset) γ) (seen cut target γ ++ seen cut offset γ) := by
  refine (fewer_contextCall "get" [target, offset] γ).trans (fewer_of_perm ?_)
  simp [seenAll, observeExprs, seen]

theorem fewer_combined (op : BinaryOp) (left right : Expr) (γ : List Sight) :
    Fewer (seen cut (Operand.combined op left right) γ) (seen cut left γ ++ seen cut right γ) := by
  have hmath : Fewer (seen cut (.member (.member (.ident contextName) "math") "__eq") γ) [] := by
    have hseen : seen cut (.member (.member (.ident contextName) "math") "__eq") γ =
        seen cut (.member (.ident contextName) "math") γ := rfl
    rw [hseen]
    exact fewer_contextMember "math" γ
  have hequal : Fewer (seen cut (.call (.member (.member (.ident contextName) "math") "__eq")
      [left, right]) γ) (seen cut left γ ++ seen cut right γ) := by
    refine (hmath.append (.refl (seenAll cut [left, right] γ))).trans (fewer_of_perm ?_)
    simp [seenAll, observeExprs, seen]
  unfold Operand.combined
  split
  · exact hequal
  · exact hequal
  · exact hequal
  · exact hequal
  · exact .refl _

/-- Mentions of the slot of a variable stand for uses of the variable. -/
theorem within_slot {out x} (t : Scope)
    (h : ∀ s ∈ out, s = .slot (t.slotName x) ∨ s = .name contextName) :
    Within out [.name x] .nothing := by
  have none {s : Sight} (hs : s ≠ .slot (t.slotName x)) (hc : s ≠ .name contextName) :
      out.count s = 0 :=
    List.count_eq_zero.mpr fun hmem => (h s hmem).elim hs hc
  refine ⟨fun value => ?_, fun n => Nat.zero_le _, fun n => ?_, fun n => ?_, nofun,
    fun s n hmem => ?_⟩
  · rw [none (s := .literal value) (by simp) (by simp)]
    simp [Inserted.nothing, Inserted.ids]
  · rw [none (s := .constant (captureName n)) (by simp) (by simp)]
    exact Nat.zero_le _
  · rw [none (s := .name (captureName n)) (by simp) (by simp [Ne.symm (context_ne_captureName n)])]
    exact Nat.zero_le _
  · rcases h _ hmem with heq | heq
    · obtain ⟨-, -, hx⟩ := Scope.slotName_inj (Sight.slot.inj heq)
      simp [hx]
    · cases heq

theorem seen_slotRef (kind : VarKind) (renamed : String) (γ : List Sight) :
    ∀ s ∈ seen cut (slotRef kind renamed) γ, s = .slot renamed ∨ s = .name contextName := by
  intro s hs
  rcases List.mem_append.mp hs with hs | hs
  · simp only [placedSights] at hs
    split at hs
    · exact .inl (List.mem_singleton.mp hs)
    · cases hs
  · exact .inr (mem_seen_contextMember hs)

/-- A slot that is in reach, or that is no slot of a `let`, is not seen. -/
theorem fewer_slotRef {kind renamed} (h : kind = .lexical → .slot renamed ∈ γ) :
    Fewer (seen cut (slotRef kind renamed) γ) [] := by
  have hseen : seen cut (slotRef kind renamed) γ =
      seen cut (.member (.ident contextName) kind.text) γ := by
    cases kind with
    | lexical =>
      change (if _ ∧ Sight.slot renamed ∉ γ then [Sight.slot renamed] else []) ++ _ = _
      rw [if_neg fun hout => hout.2 (h rfl)]
      rfl
    | _ => rfl
  rw [hseen]
  exact fewer_contextMember kind.text γ

theorem offered_initSlot (renamed : String) (value : Expr) :
    offered (initSlot "init" (slotRef .lexical renamed) value) = [.slot renamed] :=
  rfl

/-- The statement that initialises a slot has the sights of the value. -/
theorem fewer_initSlot {kind method} (hmethod : kind = .lexical → method = "init")
    (renamed : String) (value : Expr) (γ : List Sight) :
    Fewer ((initSlot method (slotRef kind renamed) value).observe (placedSights cut)
      ((placedSights cut).within (initSlot method (slotRef kind renamed) value) γ))
      (seen cut value γ) := by
  obtain ⟨γ', hγ', hslot, hsub⟩ : ∃ γ', (placedSights cut).within
      (initSlot method (slotRef kind renamed) value) γ = γ' ∧
      (kind = .lexical → .slot renamed ∈ γ') ∧ γ ⊆ γ' := by
    refine ⟨_, rfl, fun hkind => ?_, List.subset_append_right _ _⟩
    obtain rfl := hmethod hkind
    subst hkind
    exact List.mem_cons_self
  rw [hγ']
  have hslot : Fewer (seen cut (slotRef kind renamed) γ') [] := fewer_slotRef hslot
  have hvalue : Fewer (seen cut value γ') (seen cut value γ) := seen_antitone value hsub
  have hargs : Fewer (seenAll cut [slotRef kind renamed, value] γ') (seen cut value γ) := by
    simpa [seenAll, observeExprs] using hslot.append hvalue
  exact hslot.append ((fewer_contextCall method _ γ').trans hargs)

theorem mem_seen_contextCall {method args s} (h : s ∈ seen cut (contextCall method args) γ) :
    s = .name contextName ∨ s ∈ seenAll cut args γ := by
  rcases List.mem_append.mp h with h | h
  · exact .inl (mem_seen_contextMember h)
  · exact .inr h

theorem seen_readNow_slotRef (kind : VarKind) (renamed : String) (γ : List Sight) :
    ∀ s ∈ seen cut (readNow (slotRef kind renamed)) γ, s = .slot renamed ∨
      s = .name contextName := by
  intro s hs
  rcases mem_seen_contextCall hs with hs | hs
  · exact .inr hs
  · simp only [seenAll, observeExprs, Expr.nat, Expr.num, Expr.observe, List.append_nil] at hs
    exact seen_slotRef kind renamed γ s hs

theorem within_none {out} (h : Fewer out []) (x : String) : Within out [.name x] .nothing where
  literals t := by simp [h.literals t, Inserted.nothing, Inserted.ids]
  captured _ := Nat.zero_le _
  constants n := by simp [h.constants]
  names n := Nat.le_trans (h.names n) (Nat.zero_le _)
  temps := nofun
  slots s n hmem := absurd (h.slots _ hmem) List.not_mem_nil

theorem fewer_source (e : Expr) (γ : List Sight) :
    Fewer (seen cut e γ) (e.observe sourceSights ()) :=
  (placedSights_compares_source cut).expr e trivial

/-- A name stands for a use of the variable, at every position. -/
theorem within_nameAt {s} (hs : SlotsNamed s) (x : String) (position : Position) (γ : List Sight) :
    Within (seen cut (Operand.nameAt x (s.resolve x) position) γ) [.name x] .nothing := by
  have hname : Within (seen cut (.ident x) γ) [.name x] .nothing :=
    (fewer_source (.ident x) γ).within
  cases hx : s.resolve x with
  | rootParam => exact within_none (fewer_name context_ne_captureName γ) x
  | foreign | loop | localTemp => exact hname
  | contextBound =>
    cases position with
    | value =>
      refine hname.of_fewer ((fewer_readAt _ _ γ).trans (fewer_of_perm ?_))
      simp [seen, Expr.nat, Expr.num, Expr.observe]
    | _ => exact hname
  | slot renamed kind =>
    obtain ⟨t, rfl⟩ := hs.resolve hx
    cases position with
    | handle | target => exact within_slot t (seen_slotRef kind _ γ)
    | _ => exact within_slot t (seen_readNow_slotRef kind _ γ)

/-- A member of a slot form may be a slot, which the source names too. -/
theorem fewer_member (base : Expr) (x : String) (γ : List Sight) :
    Fewer (seen cut (.member base x) γ) ([.slot x] ++ seen cut base γ) := by
  refine Fewer.append ?_ (.refl _)
  simp only [placedSights]
  split
  · exact .refl _
  · exact ⟨by simp, by simp, by simp, by simp⟩

/-- An identity has one literal, whatever it is joined to. -/
theorem fewer_identity (s : Scopes) (id : String) (γ : List Sight) :
    Fewer (seen cut (identity s id) γ) [.literal id] := by
  unfold identity
  split
  · exact (fewer_contextCall "peekCallId" [] γ).append (.refl _)
  · exact .refl _

theorem library_ne_captureName {library} (h : library ∈ statefulLibraries) (n : Nat) :
    library ≠ captureName n := by
  have hdigits : ∀ library ∈ statefulLibraries, ∀ c ∈ library.toList, ¬ c.isDigit := by
    simp [statefulLibraries]
  exact ne_captureName (hdigits library h) n

theorem mem_of_statefulLibrary? {s callee library} (h : statefulLibrary? s callee = some library) :
    library ∈ statefulLibraries := by
  unfold statefulLibrary? at h
  split at h
  · have hfilter := (Option.filter_eq_some_iff.mp h).2
    simp only [Bool.and_eq_true, List.contains_iff_mem] at hfilter
    exact hfilter.1
  · cases h

theorem offered_constant (x : String) (init : Expr) : offered (constant x init) = [.name x] := rfl

theorem observe_constant (x : String) (init : Expr) (γ : List Sight) :
    (constant x init).observe (placedSights cut) ((placedSights cut).within (constant x init) γ) =
      .constant x :: seen cut init γ := by
  have hparts : (constant x init).observe (placedSights cut)
    ((placedSights cut).within (constant x init) γ) =
        [.constant x] ++ [] ++ seen cut init γ ++ [] := rfl
  rw [hparts, List.append_nil, List.append_nil, List.singleton_append]

/-- A constant is in reach behind its declaration. -/
theorem fewer_constant (x : String) (init : Expr) (γ : List Sight) :
    Fewer (seen cut (.ident x) (offered (constant x init) ++ γ)) [] := by
  rw [offered_constant]
  have hseen : seen cut (.ident x) ([.name x] ++ γ) = [] := if_pos List.mem_cons_self
  rw [hseen]
  exact .refl []

theorem observeParts_access {Γ α : Type} (o : Observer Γ α) (γ : Γ) {e} (h : isAccess e = true) :
    observeParts o γ [] e = e.observe o γ := by
  cases e with
  | member _ _ => rfl
  | index _ _ => rfl
  | _ => cases h

theorem fewer_writesExpr (outs : List Expr) (γ : List Sight) :
    Fewer (seen cut (writesExpr outs) γ) (seenAll cut outs γ) := by
  unfold writesExpr
  split
  · refine fewer_of_perm ?_
    simp [seenAll, observeExprs]
  · exact .refl _

end

variable {cut : Bool} {w w' : Walk} {src src' : List Sight} {view view' : List Sight → List Sight}

/-! ## Repetition -/

/-- What is known inside of what is repeated. -/
def inner (cut : Bool) (γ : List Sight) : List Sight := if cut then [] else γ

theorem inner_subset {γ δ} (h : δ ⊆ γ) : inner cut δ ⊆ inner cut γ := by
  unfold inner
  split
  · exact List.Subset.refl _
  · exact h

/-- What hoists nothing may stand inside of what is repeated. -/
theorem Traced.inner (h : Traced cut w w' src view) (hstill : cut = true → w'.hoisted = w.hoisted) :
    Traced cut w w' src fun γ => view (SlotForm.inner cut γ) := by
  refine ⟨fun γ δ hγ => h.antitone (inner_subset hγ), fun hnamed => ?_⟩
  obtain ⟨front, new, hstep⟩ := h.steps hnamed
  cases cut with
  | false => exact ⟨front, new, hstep⟩
  | true =>
    have hfront : front = [] := by
      have hsame := hstep.hoisted.symm.trans (hstill rfl)
      cases hlist : w.hoisted with
      | nil => exact hstep.front_nil hlist
      | cons first rest => simpa [hlist] using hsame
    subst hfront
    exact ⟨[], new, hstep.handed, hstep.hoisted, hstep.front_nil, fun γ => hstep.within []⟩

theorem Traced.of_sourced (h : Traced cut w w' src view) (hsrc : Sourced [] src src') :
    Traced cut w w' src' view := by
  refine ⟨h.antitone, fun hnamed => ?_⟩
  obtain ⟨front, new, hstep⟩ := h.steps hnamed
  exact ⟨front, new, hstep.of_sourced (hsrc.mono (List.nil_subset _))⟩

/-- Names are bound, one after the other. -/
theorem Traced.foldScopes {f : Scopes → String → Scopes} (hf : ∀ s x, Handed s (f s x) .nothing)
    (names : List String) :
    Traced cut w { w with scopes := names.foldl f w.scopes } [] fun _ => [] :=
  .scopes (.foldl hf w.scopes names)

/-! ## Statements -/

/-- The sights of a statement of a list that are out of reach. -/
abbrev placed (cut : Bool) (stmt : Stmt) (γ : List Sight) : List Sight :=
  stmt.observe (placedSights cut) ((placedSights cut).within stmt γ)

/-- The sights of a list of statements that are out of reach. -/
abbrev placedAll (cut : Bool) (stmts : List Stmt) (γ : List Sight) : List Sight :=
  observeStmts (placedSights cut) γ stmts

theorem placed_antitone (stmt : Stmt) : Antitone (placed cut stmt) := fun _ _ h =>
  (placedSights_compares cut).stmt stmt ((placedSights_compares cut).within stmt h)

theorem placedAll_antitone (stmts : List Stmt) : Antitone (placedAll cut stmts) :=
  fun _ _ h => (placedSights_compares cut).stmts stmts h

/-- What the first statement offers is not needed. -/
theorem fewer_placedAll_cons (stmt : Stmt) (stmts : List Stmt) (γ : List Sight) :
    Fewer (placedAll cut (stmt :: stmts) γ) (placed cut stmt γ ++ placedAll cut stmts γ) :=
  (Fewer.refl _).append (placedAll_antitone stmts (List.subset_append_right _ _))

theorem fewer_placed (stmt : Stmt) (γ : List Sight) :
    Fewer (placed cut stmt γ) (stmt.observe (placedSights cut) γ) :=
  (placedSights_compares cut).stmt stmt (List.subset_append_right _ _)

theorem fewer_placedAll_single (stmt : Stmt) (γ : List Sight) :
    Fewer (placedAll cut [stmt] γ) (stmt.observe (placedSights cut) γ) := by
  simpa [placedAll, observeStmts] using fewer_placed stmt γ

theorem Traced.stmt {stmt} (h : Traced cut w w' src view)
    (hstmt : ∀ γ, Fewer (stmt.observe (placedSights cut) γ) (view γ)) :
    Traced cut w w' src (placedAll cut [stmt]) :=
  h.mono (placedAll_antitone _) (fun γ => (fewer_placedAll_single stmt γ).trans (hstmt γ)) (.refl _)

theorem pattern_antitone (p : Pattern) : Antitone fun γ => p.observe (placedSights cut) γ :=
  fun _ _ h => (placedSights_compares cut).pattern p h

theorem fewer_pattern (p : Pattern) (γ : List Sight) :
    Fewer (p.observe (placedSights cut) γ) (p.observe sourceSights ()) :=
  (placedSights_compares_source cut).pattern p trivial

theorem traced_pattern (cut : Bool) (w : Walk) (p : Pattern) :
    Traced cut w w (p.observe sourceSights ()) fun γ => p.observe (placedSights cut) γ :=
  .still (pattern_antitone p) fun _ γ => (fewer_pattern p γ).within

theorem traced_declared (w : Walk) (kind : VarKind) (names : List String) :
    Traced cut w w (declaredSights kind names) fun _ => declaredSights kind names :=
  .still (fun _ _ _ => .refl _) fun _ _ => (Fewer.refl _).within

theorem Traced.declarator (kind : VarKind) (id : Pattern) {source out}
    (h : Traced cut w w' (observeExpr? sourceSights () source) fun γ =>
      observeExpr? (placedSights cut) γ out) :
    Traced cut w w' (observeDeclarators sourceSights () kind [⟨id, source⟩])
      fun γ => observeDeclarators (placedSights cut) γ kind [⟨id, out⟩] := by
  have hparts := (((traced_declared w kind id.boundNames).append (traced_pattern cut w id)).append
    h).append .nil
  exact hparts

theorem traced_names (w : Walk) (names : List String) :
    Traced cut w w (names.flatMap (sourceSights.name ()))
      fun γ => names.flatMap ((placedSights cut).name γ) :=
  .still (fun _ _ h => (placedSights_compares cut).names h names)
    fun _ _ => ((placedSights_compares_source cut).names trivial names).within

/-- A constant that gets a slot is no longer declared. -/
theorem sourced_declared (kind : VarKind) (names : List String) :
    Sourced [] [] (declaredSights kind names) := by
  unfold declaredSights
  split
  · refine ⟨fun t => ?_, by simp, by simp, by simp, by simp⟩
    exact (List.count_eq_zero.mpr (by simp)).symm
  · exact sourced_of_perm (.refl _) _

/-- The binding of a name has the sights of its value. -/
theorem sourced_named (kind : VarKind) (x : String) (init : Option Expr) :
    Sourced [] (observeExpr? sourceSights () init ++ [])
      (observeDeclarators sourceSights () kind [⟨.ident x, init⟩]) := by
  have h := (((sourced_declared kind [x]).append (sourced_of_perm (.refl []) [])).append
    (sourced_of_perm (.refl (observeExpr? sourceSights () init)) [])).append
    (sourced_of_perm (.refl []) [])
  exact h

/-- A slot that is initialised is in reach, or no slot of a `let`. -/
theorem fewer_placed_initSlot {kind} (renamed : String) (value : Expr) (γ : List Sight) :
    Fewer (placed cut (initSlot (initMethod kind) (slotRef kind renamed) value) γ)
    (seen cut value γ) := by
  refine fewer_initSlot (fun hkind => ?_) renamed value γ
  rw [hkind, initMethod]
  nofun

theorem observe_alternateStmt (stmts : List Stmt) (γ : List Sight) :
    (alternateStmt stmts).observe (placedSights cut)
      ((placedSights cut).body (alternateStmt stmts) γ) = placedAll cut stmts γ := by
  unfold alternateStmt
  split
  · exact (List.append_nil _).symm
  · rfl

/-- What is noted in the start of a loop, if there is one. -/
def observeInit? {Γ α : Type} (o : Observer Γ α) (γ : Γ) : Option ForInit → List α
  | none => []
  | some init => init.observe o γ

end IndicatorCompiler.SlotForm
