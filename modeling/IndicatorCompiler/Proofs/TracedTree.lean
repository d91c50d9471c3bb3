import IndicatorCompiler.Proofs.SlotWalks
import IndicatorCompiler.Proofs.TracedForms

/-!
# Tracing trees

Every slot form is traced, by induction on how it is made.  If nothing may reach into functions and
loops, the tree has to be `steady`.

Each list of statements is walked with hoisted statements of its own, so a statement that is put in
front of another stays in its list.  Heads of loops and parameters of functions are walked with
those of the list around them: what they hoist is in reach there, but not from inside the loop or
the function, so if that counts they have to hoist nothing.
-/

namespace IndicatorCompiler.SlotForm

open Script
open Bool (and_eq_true and_eq_true_iff)
open List (append_nil append_assoc perm_append_comm nil_append)

/-! ## Destructurings -/

/-- No slot of a variable is named like the method. -/
theorem slice_ne_slotName (s : Scope) (x : String) : "slice" ≠ s.slotName x := by
  intro h
  have hmem : '_' ∈ "slice".toList := by
    rw [h, Scope.toList_slotName]
    simp
  exact absurd hmem (by decide)

/-- The elements from a position on have the sights of the whole. -/
theorem sourced_slice {sights sights'} (h : Sourced [] sights sights') :
    Sourced [] (.slot "slice" :: sights) sights' where
  literals t := by simpa using h.literals t
  constants x := by simpa using h.constants x
  names n := by simpa using h.names n
  temporaries n hmem := h.temporaries n (by simpa using hmem)
  slots s x hmem := by
    refine h.slots s x ((List.mem_cons.mp hmem).resolve_left fun heq => ?_)
    exact slice_ne_slotName s x (Sight.slot.inj heq).symm

mutual
/-- However a whole is reached, the parts of a destructuring of it have the sights of the target. -/
theorem sourced_parts {whole target parts sights} :
    Parts whole target parts → Sourced [] (whole.observe sourceSights ()) sights →
    Sourced [] (observeExprs sourceSights () parts) (observeParts sourceSights () sights target)
  | .name _ x, h => by
    simpa [observeExprs, Expr.observe, observeParts, sourceSights] using
      (sourced_of_perm (.refl [Sight.name x]) []).append h
  | .array hs, h => sourced_items hs h
  | .object hs, h => sourced_properties hs h
  | @Parts.withDefault _ _ value _ hs, h =>
    (sourced_parts hs (h.append (sourced_of_perm (.refl (value.observe sourceSights ())) [])) :)

theorem sourced_items {whole i es parts sights} :
    ItemParts whole i es parts → Sourced [] (whole.observe sourceSights ()) sights →
    Sourced [] (observeExprs sourceSights () parts) (observeItemParts sourceSights () sights es)
  | .nil _ _, _ => sourced_of_perm (.refl _) []
  | .item hfirst hs, h => by
    rw [observeExprs_append]
    refine (sourced_parts hfirst ?_).append (sourced_items hs h)
    simpa [Expr.observe, Expr.nat, Expr.num] using h
  | .rest hfirst hs, h => by
    rw [observeExprs_append]
    refine (sourced_parts hfirst ?_).append (sourced_items hs h)
    simpa [Expr.observe, observeExprs, Expr.nat, Expr.num, sourceSights] using sourced_slice h

theorem sourced_properties {whole ps parts sights} :
    PropertyParts whole ps parts → Sourced [] (whole.observe sourceSights ()) sights →
    Sourced [] (observeExprs sourceSights () parts) (observePropertyParts sourceSights () sights ps)
  | .nil _, _ => sourced_of_perm (.refl _) []
  | @PropertyParts.cons _ _ _ x _ _ _ _ hkey hfirst hs, h => by
    have hsource : Sourced [] ((Expr.member whole x).observe sourceSights ())
      (sights ++ [.slot x]) :=
      (sourced_of_perm perm_append_comm []).trans (h.append (sourced_of_perm (.refl _) []))
    rw [observeExprs_append]
    rcases hkey with rfl | rfl <;>
      exact (sourced_parts hfirst hsource).append (sourced_properties hs h)
end

section

variable {c : Check}

theorem everyExpr_append (a b : List Expr) :
    everyExpr c (a ++ b) = (everyExpr c a && everyExpr c b) := by
  induction a with
  | nil => rfl
  | cons e a ih => rw [List.cons_append, everyExpr, everyExpr, ih, Bool.and_assoc]

mutual
/-- What holds of all functions in a whole and in a target holds of those in the parts. -/
theorem every_parts {whole target parts} :
    Parts whole target parts → whole.every c = true → target.every c = true →
      everyExpr c parts = true
  | .name _ _, h, _ => by simpa [everyExpr, Expr.every] using h
  | .array hs, h, ht => every_items hs h ht
  | .object hs, h, ht => every_properties hs h ht
  | .withDefault hs, h, ht => by
    rw [Expr.every, and_eq_true] at ht
    exact every_parts hs (by simp [Expr.every, h, ht.2]) ht.1

theorem every_items {whole i es parts} :
    ItemParts whole i es parts → whole.every c = true → everyExpr c es = true →
    everyExpr c parts = true
  | .nil _ _, _, _ => rfl
  | .item hfirst hs, h, ht | .rest hfirst hs, h, ht => by
    rw [everyExpr, and_eq_true] at ht
    rw [everyExpr_append, and_eq_true]
    exact ⟨every_parts hfirst (by simpa [Expr.every, everyExpr, Expr.nat, Expr.num] using h) ht.1,
      every_items hs h ht.2⟩

theorem every_properties {whole ps parts} :
    PropertyParts whole ps parts → whole.every c = true → everyProperty c ps = true →
    everyExpr c parts = true
  | .nil _, _, _ => rfl
  | .cons _ hfirst hs, h, ht => by
    rw [everyProperty, and_eq_true, and_eq_true] at ht
    rw [everyExpr_append, and_eq_true]
    exact ⟨every_parts hfirst h ht.1.2, every_properties hs h ht.2⟩
end

theorem every_asList {stmt} (h : stmt.every c = true) : everyStmt c (asList stmt) = true := by
  cases stmt with
  | block body =>
    rw [Stmt.every, and_eq_true] at h
    exact h.2
  | empty => rfl
  | _ => exact and_eq_true_iff.mpr ⟨h, rfl⟩

end

/-! ## Bodies -/

theorem Traced.asList {cut w w' stmt} {view : List Sight → List Sight}
    (h : Traced cut w w' (observeStmts sourceSights () (SlotForm.asList stmt)) view) :
    Traced cut w w' (stmt.observe sourceSights ()) view := by
  have hobserve : observeStmts sourceSights () (SlotForm.asList stmt) =
      stmt.observe sourceSights () := by
    cases stmt with
    | block body => rfl
    | empty => rfl
    | _ => exact append_nil _
  rwa [hobserve] at h

theorem observe_bodyStmts (body : FunctionBody) :
    observeStmts sourceSights () (bodyStmts body) = body.observe sourceSights () := by
  cases body with
  | block body => rfl
  | expr value => exact append_nil _

theorem every_bodyStmts {c} (hc : ∀ e, c.stmt (.ret e) = true) {body} (h : body.every c = true) :
    everyStmt c (bodyStmts body) = true := by
  cases body with
  | block body => exact h
  | expr value => exact and_eq_true_iff.mpr ⟨and_eq_true_iff.mpr ⟨hc _, h⟩, rfl⟩

/-- The slot form of an access that is written is an access again. -/
theorem isAccess_target {e out w w'} (h : Formed (.expr .target e out) w w')
    (he : isAccess e = true) : isAccess out = true := by
  cases h with
  | member | key | element => rfl
  | history h | rooted h | series h => exact absurd rfl h
  | _ => cases he

section

variable {cut : Bool} {w w' w₁ w₂ : Walk} {src : List Sight} {out : Expr} {x renamed : String}
  {kind : VarKind} {outs : List Expr}

/-! ## Expressions -/

/-- A value that is kept in a slot is read behind the statement that keeps it. -/
theorem Traced.seriesSlot {w₀ value} (h : Traced cut w₀ w src (seen cut value))
    (hhoist : Hoists (initSlot "init" (slotRef .lexical (SlotForm.seriesSlot w.scopes).1) value)
      { w with scopes := (SlotForm.seriesSlot w.scopes).2 } w') :
    Traced cut w₀ w' src (seen cut (slotRef .lexical (SlotForm.seriesSlot w.scopes).1)) := by
  obtain ⟨-, -, htemp⟩ := Handed.generateTemp w.scopes
  have hscopes := h.append (.scopes ((htemp []).andThen
    (.addVariable w.scopes.generateTemp.2 w.scopes.generateTemp.1 .lexical)))
  simp only [append_nil] at hscopes
  refine hscopes.hoist hhoist (fewer_initSlot (fun _ => rfl) _ value) (seen_antitone _) fun γ => ?_
  rw [offered_initSlot]
  exact fewer_slotRef fun _ => List.mem_append_left _ List.mem_cons_self

/-- An index is walked before the base, which stands in front of it. -/
theorem Traced.swapped {src'} {view view' : List Sight → List Sight} (hi : Traced cut w w₁ src view)
    (hbase : Traced cut w₁ w₂ src' view') (hout : ∀ γ, Fewer (seen cut out γ) (view' γ ++ view γ)) :
    Traced cut w w₂ (src' ++ src) (seen cut out) :=
  (hi.append hbase).mono (seen_antitone _)
    (fun γ => (hout γ).trans (fewer_of_perm perm_append_comm)) perm_append_comm

theorem traced_name (x : String) (w : Walk) (position : Position) :
    Traced cut w w [.name x] (seen cut (Operand.nameAt x (w.scopes.resolve x) position)) :=
  .still (seen_antitone _) fun hnamed γ => within_nameAt hnamed x position γ

theorem traced_same (e : Expr) (w : Walk) :
    Traced cut w w (e.observe sourceSights ()) (seen cut e) :=
  .still (seen_antitone _) fun _ γ => (fewer_source e γ).within

theorem traced_slots (hx : w.scopes.resolve x = .slot renamed kind) (slots : List Expr)
    (h : ∀ e ∈ slots, e = slotRef kind renamed ∨ e = readNow (slotRef kind renamed)) :
    Traced cut w w [.name x] (seenAll cut slots) := by
  refine .still (fun _ _ hγ => (placedSights_compares cut).exprs slots hγ) fun hnamed γ => ?_
  obtain ⟨t, rfl⟩ := hnamed.resolve hx
  refine within_slot t fun s hs => ?_
  obtain ⟨e, he, hs⟩ := mem_seenAll.mp hs
  rcases h e he with rfl | rfl
  · exact seen_slotRef kind _ γ s hs
  · exact seen_readNow_slotRef kind _ γ s hs

theorem traced_setSlot (op : AssignOp) {e} (hx : w.scopes.resolve x = .slot renamed kind)
    (h : Traced cut w w' (e.observe sourceSights ()) (seen cut out)) :
    Traced cut w w' ((Expr.assign op (.ident x) e).observe sourceSights ())
      (seen cut (contextCall "set" [slotRef kind renamed, match op.arithmetic? with
        | some arithmetic => .binary arithmetic (readNow (slotRef kind renamed)) out
        | none => out])) := by
  have hsrc : ([Sight.name x] ++ e.observe sourceSights ()).Perm
      ((Expr.assign op (.ident x) e).observe sourceSights ()) := by
    simp [Expr.observe, sourceSights, observeParts]
  cases op.arithmetic? with
  | none =>
    refine ((traced_slots hx [slotRef kind renamed] (by simp)).append h).mono
      (seen_antitone _) (fun γ => (fewer_contextCall "set" _ γ).trans (fewer_of_perm ?_)) hsrc
    simp [seenAll, observeExprs]
  | some arithmetic =>
    refine ((traced_slots hx [slotRef kind renamed, readNow (slotRef kind renamed)]
      (by simp)).append h).mono (seen_antitone _)
      (fun γ => (fewer_contextCall "set" _ γ).trans (fewer_of_perm ?_)) hsrc
    simp [seenAll, observeExprs, Expr.observe]

theorem traced_updateSlot (op : UpdateOp) (hx : w.scopes.resolve x = .slot renamed kind) :
    Traced cut w w [.name x] (seen cut (contextCall "set" [slotRef kind renamed,
      .binary (updateArithmetic op) (readNow (slotRef kind renamed)) (.nat 1)])) := by
  refine (traced_slots hx [slotRef kind renamed, readNow (slotRef kind renamed)]
    (by simp)).mono (seen_antitone _) (fun γ => (fewer_contextCall "set" _ γ).trans
      (fewer_of_perm ?_)) (.refl _)
  simp [seenAll, observeExprs, Expr.observe, Expr.nat, Expr.num]

/-- A value goes into a constant in front of the statement, and its parts are assigned behind it. -/
theorem Traced.destructure {w₃ target e parts}
    (h : Traced cut w w₁ (e.observe sourceSights ()) (seen cut out))
    (hhoist : Hoists (constant (constantTemp w₁.scopes).1 out)
      { w₁ with scopes := (constantTemp w₁.scopes).2 } w₂)
    (hparts : Parts (.ident (constantTemp w₁.scopes).1) target parts)
    (hassigned : Traced cut w₂ w₃ (observeExprs sourceSights () parts) (seenAll cut outs)) :
    Traced cut w w₃ ((Expr.assign .assign target e).observe sourceSights ())
      (seen cut (writesExpr outs)) := by
  refine ⟨seen_antitone _, fun hnamed => ?_⟩
  obtain ⟨n, hname, htemp⟩ := Handed.generateTemp w₁.scopes
  obtain ⟨first, rest, hhoisted, rfl⟩ := hhoist
  rw [constantTemp, hname] at hparts hassigned
  obtain ⟨front, new, hfirst⟩ := h.steps hnamed
  have hconstant : Within [.constant (tempName n)] [] ⟨[], [], [n]⟩ :=
    ⟨by simp [Inserted.ids], by simp, fun m => by simp [tempName_ne_captureName n m], by simp,
      by simp, by simp⟩
  have hdue : Step cut w₁ _ [] (fun _ => [.constant (tempName n)]) [] ⟨[], [], [n]⟩ :=
    .of_scopes ((htemp [n]).andThen (.addTemp w₁.scopes.generateTemp.2 (tempName n))) fun _ =>
    hconstant
  have hdeclared (γ : List Sight) : Fewer ((constant (tempName n) out).observe (placedSights cut)
      ((placedSights cut).within (constant (tempName n) out) γ))
      (seen cut out γ ++ [.constant (tempName n)]) := by
    rw [observe_constant]
    exact fewer_of_perm (List.perm_append_singleton _ _).symm
  have hkept : Step cut w _ _ (fun _ => []) _ _ :=
    (hfirst.append hdue (seen_antitone _)).hoist hhoisted hdeclared fun _ => .refl []
  obtain ⟨front', new', hrest⟩ := hassigned.steps (hkept.handed.named hnamed)
  refine ⟨_, _,
    ((hkept.append hrest fun _ _ _ => .refl []).mono (fewer_writesExpr outs)).of_sourced ?_⟩
  have hn : [n] ⊆ ((new.andThen ⟨[], [], [n]⟩).andThen new').temps := by simp [Inserted.andThen]
  have hsourced := sourced_parts hparts (sourced_of_perm (.refl _) [])
  have htarget :=
    (sourceSights_compares [n]).parts target (γ := ()) (δ := ()) trivial (sourced_temp n)
  have hall := (sourced_of_perm (.refl (e.observe sourceSights ())) [n]).append
    ((hsourced.mono (List.nil_subset [n])).trans htarget)
  refine (hall.mono hn).trans (sourced_of_perm perm_append_comm _) |> .trans ?_
  rw [append_nil]
  exact sourced_of_perm (.refl _) _

/-- A capture is declared in front of the statement, and used behind that. -/
theorem Traced.capture {library} (hlibrary : library ∈ statefulLibraries) {w₀ source lookback}
    (h : Traced cut w₀ w src fun γ => seen cut source γ ++ seen cut lookback γ)
    (hhoist : Hoists
      (constant (captureTemp w.scopes).1
        (.call (.member (.ident library) "param") [source, lookback,
          identity w.scopes (captureTemp w.scopes).1]))
          { w with scopes := (captureTemp w.scopes).2 } w') :
    Traced cut w₀ w' src (seen cut (.ident (captureTemp w.scopes).1)) := by
  obtain ⟨n, hname, hparam⟩ := Traced.generateParam cut w
  rw [captureTemp, hname] at hhoist ⊢
  have hdue :=
    (h.append hparam).append (.scopes (.addTemp w.scopes.generateParam.2 (captureName n)))
  simp only [append_nil] at hdue
  refine hdue.hoist hhoist (fun γ => ?_) (seen_antitone _) (fewer_constant _ _)
  rw [observe_constant]
  have hcallee : Fewer (seen cut (.member (.ident library) "param") γ) [] := by
    have hseen : seen cut (.member (.ident library) "param") γ = seen cut (.ident library) γ := rfl
    rw [hseen]
    exact fewer_name (library_ne_captureName hlibrary) γ
  have hargs : Fewer (seenAll cut [source, lookback, identity w.scopes (captureName n)] γ)
      (seen cut source γ ++ seen cut lookback γ ++ [.literal (captureName n)]) := by
    simpa [seenAll, observeExprs] using
      ((Fewer.refl (seen cut source γ)).append (.refl (seen cut lookback γ))).append
        (fewer_identity w.scopes (captureName n) γ)
  refine ((Fewer.refl [.constant (captureName n)]).append (hcallee.append hargs)).trans
    (fewer_of_perm (List.perm_iff_count.mpr fun s => ?_))
  simp only [List.count_append, List.count_cons, List.count_nil]
  omega

theorem Traced.libraryCall {library} (hlibrary : library ∈ statefulLibraries) {f f' es}
    (hf : Traced cut w w₁ (f.observe sourceSights ()) (seen cut f'))
    (hs : Traced cut w₁ w₂ (observeExprs sourceSights () es) (seenAll cut outs)) :
    Traced cut w { w₂ with scopes := (w₂.scopes.generateCall library).2 }
      ((Expr.call f es).observe sourceSights ())
      (seen cut (.call f' (outs ++ [identity w₂.scopes (w₂.scopes.generateCall library).1]))) := by
  obtain ⟨n, hname, hcall⟩ :=
    Traced.generateCall cut w₂ (List.mem_cons_of_mem userCallStem hlibrary)
  refine ((hf.append hs).append hcall).mono (seen_antitone _) (fun γ => ?_)
    (by rw [append_nil]; exact .refl _)
  have hlist : Fewer
    (seenAll cut (outs ++ [identity w₂.scopes (w₂.scopes.generateCall library).1]) γ)
      (seenAll cut outs γ ++ [.literal (callId library n)]) := by
    rw [seenAll, observeExprs_append, hname]
    refine (Fewer.refl _).append ?_
    simpa only [observeExprs, append_nil] using fewer_identity w₂.scopes (callId library n) γ
  exact ((Fewer.refl (seen cut f' γ)).append hlist).trans
    (fewer_of_perm (append_assoc _ _ _ ▸ .refl _))

theorem Traced.userCall (f : String) {es}
    (hs : Traced cut w w' (observeExprs sourceSights () es) (seenAll cut outs)) :
    Traced cut w { w' with scopes := (w'.scopes.generateCall userCallStem).2 }
      ((Expr.call (.ident f) es).observe sourceSights ())
      (seen cut (contextCall "call" (.ident f ::
        identity w'.scopes (w'.scopes.generateCall userCallStem).1 :: outs))) := by
  obtain ⟨n, hname, hcall⟩ :=
    Traced.generateCall cut w' (List.mem_cons_self : userCallStem ∈ callStems)
  refine (((traced_same (.ident f) w).append hs).append hcall).mono (seen_antitone _) (fun γ => ?_)
    (by rw [append_nil]; exact .refl _)
  refine (fewer_contextCall "call" _ γ).trans ?_
  rw [hname]
  refine (((Fewer.refl (seen cut (.ident f) γ)).append
    ((fewer_identity w'.scopes (callId userCallStem n) γ).append
      (.refl (seenAll cut outs γ)))).trans (fewer_of_perm ?_))
  refine List.perm_iff_count.mpr fun s => ?_
  simp only [List.count_append]
  omega

/-! ## Statements -/

/-- What a loop starts with passes, if there is anything. -/
def everyInit? (check : Check) : Option ForInit → Bool
  | none => true
  | some init => init.every check

theorem every_forLoop (check : Check) (init : Option ForInit) (test update : Option Expr)
    (body : Stmt) : (Stmt.forLoop init test update body).every check =
      (check.stmt (.forLoop init test update body) && everyInit? check init &&
        everyExpr? check test && everyExpr? check update && body.every check) := by
  cases init <;> rfl

theorem Traced.slot (kind : VarKind) (x : String) {init out}
    (h : Traced cut w w' (observeExpr? sourceSights () init) fun γ =>
      observeExpr? (placedSights cut) γ out) :
    Traced cut w { w' with scopes := (w'.scopes.addVariable x kind).2 }
      (observeDeclarators sourceSights () kind [⟨.ident x, init⟩])
      (placed cut (initSlot (initMethod kind) (slotRef kind (w'.scopes.addVariable x kind).1)
        (out.getD .undefined))) := by
  have hslot : Traced cut w _ _ fun γ => observeExpr? (placedSights cut) γ out ++ [] :=
    (h.append (.scopes (Handed.addVariable w'.scopes x kind))).of_sourced
    (sourced_named kind x init)
  refine hslot.mono (placed_antitone _) (fun γ => ?_) (.refl _)
  refine (fewer_placed_initSlot _ _ γ).trans ?_
  rw [append_nil]
  cases out with
  | none => exact fewer_undefined γ
  | some e => exact .refl _

theorem Traced.forEach {kind each pattern right right' body stmts}
    (hright : Traced cut w w₁ (right.observe sourceSights ()) (seen cut right'))
    (hbody : Traced cut { w₁ with
        scopes := pattern.boundNames.foldl Scopes.addLoopVariable (w₁.scopes.push .forLoop) } w₂
      (body.observe sourceSights ()) fun γ => placedAll cut stmts (SlotForm.inner cut γ)) :
    Traced cut w { w₂ with scopes := w₂.scopes.pop }
      ((Stmt.forEach each kind pattern right body).observe sourceSights ())
      (placedAll cut [.forEach each kind pattern right' (.block stmts)]) := by
  have hleft := (hright.append (.scopes (Handed.push w₁.scopes .forLoop))).append
    (.foldScopes .addLoopVariable pattern.boundNames)
  have hpattern := ((traced_pattern cut _ pattern).inner fun _ => rfl).append
    (hbody.append (.scopes (Handed.pop w₂.scopes)))
  cases kind with
  | none =>
    have hparts := (hleft.append (traced_names _ pattern.boundNames)).append hpattern
    simp only [append_nil, append_assoc] at hparts
    refine (hparts.stmt fun γ => ?_).mono (placedAll_antitone _) (fun γ => .refl _) ?_
    · simp only [Stmt.observe, append_assoc]
      exact .refl _
    · simp only [Stmt.observe, append_assoc]
      exact .refl _
  | some kind =>
    have hparts := (hleft.append (traced_declared _ kind pattern.boundNames)).append hpattern
    simp only [append_nil, append_assoc] at hparts
    refine (hparts.stmt fun γ => ?_).mono (placedAll_antitone _) (fun γ => .refl _) ?_
    · simp only [Stmt.observe, append_assoc]
      exact .refl _
    · simp only [Stmt.observe, append_assoc]
      exact .refl _

/-- Each statement stands behind what was hoisted in front of it. -/
theorem Step.cons {stmt rest stmts outs front hoisted new new'}
    (h : Step cut w w₁ (stmt.observe sourceSights ()) (placedAll cut stmts) front new)
    (hw : w.hoisted = [] :: hoisted) (hhanded : Handed w₁.scopes w₂.scopes new')
    (hwithin : ∀ γ, Within (placedAll cut outs γ) (observeStmts sourceSights () rest) new') :
    Handed w.scopes w₂.scopes (new.andThen new') ∧
      ∀ γ, Within (placedAll cut (w₁.hoisted.headD [] ++ stmts ++ outs) γ)
        (observeStmts sourceSights () (stmt :: rest)) (new.andThen new') := by
  have hfront : w₁.hoisted = front :: hoisted := by simp [h.hoisted, hw]
  refine ⟨h.handed.andThen hhanded, fun γ => ?_⟩
  have hfirst := (h.within γ).append (hwithin
    ((placedSights cut).past ((placedSights cut).past γ front) stmts))
  rw [placedAll, hfront, List.headD_cons, observeStmts_append, observeStmts_append]
  have hpast : (placedSights cut).past γ (front ++ stmts) =
      (placedSights cut).past ((placedSights cut).past γ front) stmts := List.foldl_append
  rw [hpast]
  exact hfirst

/-- The part of the source passes. -/
def Form.every (c : Check) : Form → Bool
  | .expr _ e _ | .source e _ _ => e.every c
  | .exprs _ es _ | .captures _ es _ => everyExpr c es
  | .expr? e _ => everyExpr? c e
  | .properties ps _ => everyProperty c ps
  | .key k _ => k.every c
  | .function _ f _ => f.every c
  | .params ps _ => everyPattern c ps
  | .stmt s _ => s.every c
  | .stmts ss _ | .block ss _ | .scope _ ss _ => everyStmt c ss
  | .declarators _ ds _ | .bindings ds _ => everyDeclarator c ds
  | .declarator _ d _ => everyExpr? c d.init
  | .init? init _ => everyInit? c init

/-- What it is to trace the part. -/
abbrev Form.Traced (cut : Bool) (w w' : Walk) : Form → Prop
  | .expr _ e out => SlotForm.Traced cut w w' (e.observe sourceSights ()) (seen cut out)
  | .exprs _ es outs =>
    SlotForm.Traced cut w w' (observeExprs sourceSights () es) (seenAll cut outs)
  | .expr? e out => SlotForm.Traced cut w w' (observeExpr? sourceSights () e)
      fun γ => observeExpr? (placedSights cut) γ out
  | .properties ps outs => SlotForm.Traced cut w w' (observeProperties sourceSights () ps)
      fun γ => observeProperties (placedSights cut) γ outs
  | .key k out => SlotForm.Traced cut w w' (k.observe sourceSights ())
      fun γ => out.observe (placedSights cut) γ
  | .source e out lookback => SlotForm.Traced cut w w' (e.observe sourceSights ())
      fun γ => seen cut out γ ++ seen cut lookback γ
  | .captures library es outs => library ∈ statefulLibraries →
      SlotForm.Traced cut w w' (observeExprs sourceSights () es) (seenAll cut outs)
  | .function _ f out => SlotForm.Traced cut w w' (f.observe sourceSights ())
      fun γ => out.observe (placedSights cut) γ
  | .params ps outs => (cut = true → calmParams ps = true) →
      SlotForm.Traced cut w w' (observePatterns sourceSights () ps)
        fun γ => observePatterns (placedSights cut) (SlotForm.inner cut γ) outs
  | .stmt s outs => SlotForm.Traced cut w w' (s.observe sourceSights ()) (placedAll cut outs)
  | .stmts ss outs => ∀ ⦃rest⦄, w.hoisted = [] :: rest → SlotsNamed w.scopes →
      ∃ new, Handed w.scopes w'.scopes new ∧
        ∀ γ, Within (placedAll cut outs γ) (observeStmts sourceSights () ss) new
  | .block ss outs | .scope _ ss outs =>
    SlotForm.Traced cut w w' (observeStmts sourceSights () ss) (placedAll cut outs)
  | .declarators kind ds outs =>
    SlotForm.Traced cut w w' (observeDeclarators sourceSights () kind ds) (placedAll cut outs)
  | .declarator kind d out =>
    SlotForm.Traced cut w w' (observeDeclarators sourceSights () kind [d]) (placed cut out)
  | .init? init out => SlotForm.Traced cut w w' (observeInit? sourceSights () init)
      fun γ => observeInit? (placedSights cut) γ out
  | .bindings ds outs =>
    ∀ kind, SlotForm.Traced cut w w' (observeDeclarators sourceSights () kind ds)
      fun γ => observeDeclarators (placedSights cut) γ kind outs

theorem traced {form} (h : Formed form w w') (hs : cut = true → form.every steady = true) :
    form.Traced cut w w' := by
  induction h with
    try simp only [Form.every, Expr.every, everyExpr, everyExpr?, everyProperty, PropertyKey.every,
      Function.every, everyPattern, Pattern.every, everyDeclarator, everyStmt, every_forLoop,
      and_eq_true] at hs
  | ident position x w => exact traced_name x w position
  | lit _ value w => exact traced_same (.lit value) w
  | array _ ih | sequence _ ih | object _ ih | function _ ih | unary _ _ ih | spread _ ih
  | update _ _ _ ih | someExpr _ ih | keyComputed _ ih | exprInit _ ih => exact (ih hs :)
  | noExprs | noExpr | noProperties | keyName | keyStr | noDeclarators | noInit | empty =>
    exact .nil
  | noCaptures | noParams | noBindings => exact fun _ => .nil
  | binary op _ _ ihl ihr =>
    exact ((ihl fun hcut => (hs hcut).1).append (ihr fun hcut => (hs hcut).2)).mono
      (seen_antitone _)
      (fewer_combined op _ _) (.refl _)
  | conditional _ _ _ iht ihc iha =>
    exact ((iht fun hcut => (hs hcut).1.1).append (ihc fun hcut => (hs hcut).1.2)).append
      (iha fun hcut => (hs hcut).2)
  | new _ _ ihf ih | call _ _ _ _ ihf ih =>
    exact (ihf fun hcut => (hs hcut).1).append (ih fun hcut => (hs hcut).2)
  | @member _ _ _ w _ x _ ih =>
    have hslot : SlotForm.Traced cut w w [.slot x] fun _ => [.slot x] :=
      .still (fun _ _ _ => .refl _) fun _ _ => (Fewer.refl _).within
    exact (hslot.append (ih hs)).mono (seen_antitone _) (fewer_member _ x) (.refl _)
  | key _ _ ih => exact (ih fun hcut => (hs hcut).1).append (traced_same _ _)
  | element _ _ _ ihi ih =>
    exact (ihi fun hcut => (hs hcut).2).swapped (ih fun hcut => (hs hcut).1) fun γ => .refl _
  | history _ _ _ ihi =>
    exact (ihi fun hcut => (hs hcut).2).swapped (traced_name _ _ .handle) (fewer_readAt _ _)
  | rooted _ _ _ _ _ _ ihi ih =>
    exact (ihi fun hcut => (hs hcut).2).swapped (ih fun hcut => (hs hcut).1) (fewer_readAt _ _)
  | series _ _ _ _ _ hhoist ihi ih =>
    exact (ihi fun hcut => (hs hcut).2).swapped ((ih fun hcut => (hs hcut).1).seriesSlot hhoist)
      (fewer_readAt _ _)
  | userCall _ _ ih => exact (ih fun hcut => (hs hcut).2).userCall _
  | libraryCall hlibrary _ _ ihf ih =>
    have hmem := mem_of_statefulLibrary? hlibrary
    exact (ihf fun hcut => (hs hcut).1).libraryCall hmem (ih (fun hcut => (hs hcut).2) hmem)
  | setSlot op hx _ ih => exact traced_setSlot op hx (ih fun hcut => (hs hcut).2)
  | assign op x _ _ ih =>
    refine ((traced_same (.ident x) _).append (ih fun hcut => (hs hcut).2)).mono (seen_antitone _)
      (fun γ => fewer_of_perm ?_) ?_
    · simp [seen, Expr.observe, observeParts, placedSights]
    · simp [Expr.observe, sourceSights, observeParts]
  | @assignMember _ op t t' e e' _ _ _ haccess ht _ iht ih =>
    refine ((iht fun hcut => (hs hcut).1).append (ih fun hcut => (hs hcut).2)).mono
      (seen_antitone _)
      (fun γ => fewer_of_perm ?_) ?_
    · have hseen : seen cut (.assign op t' e') γ = observeParts (placedSights cut) γ [] t' ++
          seen cut e' γ := rfl
      rw [hseen, observeParts_access (placedSights cut) γ (isAccess_target ht haccess)]
    · have hobserve : (Expr.assign op t e).observe sourceSights () =
          observeParts sourceSights () [] t ++ e.observe sourceSights () := rfl
      rw [hobserve, observeParts_access sourceSights () haccess]
  | destructure _ hhoist _ hparts _ ih ihs =>
    exact (ih fun hcut => (hs hcut).2).destructure hhoist hparts
      (ihs fun hcut => every_parts hparts rfl (hs hcut).1)
  | updateSlot op _ hx => exact traced_updateSlot op hx
  | moreExprs _ _ ih ihs => exact (ih fun hcut => (hs hcut).1).append (ihs fun hcut => (hs hcut).2)
  | moreProperties _ _ _ ihkey ih ihs =>
    exact ((ihkey fun hcut => (hs hcut).1.1).append (ih fun hcut => (hs hcut).1.2)).append
      (ihs fun hcut => (hs hcut).2)
  | @sourceNow _ out _ _ _ ih =>
    refine (ih hs).mono (fun γ δ hγ => (seen_antitone _ hγ).append (seen_antitone _ hγ))
      (fun γ => ?_) (.refl _)
    simpa only [append_nil] using (Fewer.refl (seen cut out γ)).append (fewer_undefined γ)
  | sourceBack _ _ ihi ih =>
    exact ((ihi fun hcut => (hs hcut).2).append (ih fun _ => rfl)).mono
      (fun γ δ hγ => (seen_antitone _ hγ).append (seen_antitone _ hγ))
      (fun γ => fewer_of_perm perm_append_comm) perm_append_comm
  | capture _ _ hhoist _ ih ihs =>
    exact fun hlibrary => ((ih fun hcut => (hs hcut).1).capture hlibrary hhoist).append
      (ihs (fun hcut => (hs hcut).2) hlibrary)
  | captureValue _ _ _ ih ihs =>
    exact fun hlibrary => (ih fun hcut => (hs hcut).1).append
      (ihs (fun hcut => (hs hcut).2) hlibrary)
  | @functionParts _ _ _ _ _ _ _ w _ w₂ _ hbody ihparams ih =>
    have hstmts := (ih fun hcut => every_bodyStmts (fun _ => rfl) (hs hcut).2).inner fun _ =>
      grows hbody
    rw [observe_bodyStmts] at hstmts
    have hparts := (((Traced.scopes (Handed.enterFunction w.scopes _)).append
      (ihparams (fun hcut => (hs hcut).1.2) fun hcut => (hs hcut).1.1)).append hstmts).append
      (.scopes (Handed.exitFunction w₂.scopes))
    simp only [nil_append, append_nil] at hparts
    exact hparts
  | @plainParam p _ _ w _ hplain _ ih =>
    intro hcalm
    rw [calmParams_cons_plain hplain] at hcalm
    have hparts := (((traced_pattern cut w p).inner fun _ => rfl).append
      (.foldScopes .addContextBound p.boundNames)).append (ih (fun hcut => (hs hcut).2) hcalm)
    simp only [append_nil] at hparts
    exact hparts
  | @defaultParam target _ _ _ _ w _ _ h _ ih ihs =>
    intro hcalm
    simp only [calmParams, and_eq_true] at hcalm
    have hkept :=
      (ih fun hcut => (hs hcut).1.2).inner fun hcut => (grows h).eq_of_still (hcalm hcut).1
    have hparts := ((((traced_pattern cut w target).inner fun _ => rfl).append hkept).append
      (.foldScopes .addContextBound target.boundNames)).append
      (ihs (fun hcut => (hs hcut).2) fun hcut => (hcalm hcut).2)
    simp only [append_nil] at hparts
    exact hparts
  | var _ ih =>
    simp only [Stmt.every, and_eq_true] at hs
    exact ih fun hcut => (hs hcut).2
  | functionStmt _ ih | ret _ ih | exprStmt _ ih =>
    simp only [Stmt.every, and_eq_true] at hs
    exact (ih fun hcut => (hs hcut).2).stmt fun γ => .refl _
  | retRounded _ _ ih =>
    simp only [Stmt.every, everyExpr?, and_eq_true] at hs
    refine (ih fun hcut => (hs hcut).2).stmt fun γ =>
      (fewer_contextCall "precision" [_] γ).trans (fewer_of_perm ?_)
    simp [seenAll, observeExprs]
  | ifThen _ _ ih ihbody =>
    simp only [Stmt.every, and_eq_true] at hs
    have hstmts := (ihbody fun hcut => every_asList (hs hcut).1.2).asList
    exact (((ih fun hcut => (hs hcut).1.1.2).append hstmts).append .nil).stmt fun γ => .refl _
  | ifElse _ _ _ ih ihbody ihother =>
    simp only [Stmt.every, and_eq_true] at hs
    have hstmts := (ihbody fun hcut => every_asList (hs hcut).1.2).asList
    have hothers := (ihother fun hcut => every_asList (hs hcut).2).asList
    refine (((ih fun hcut => (hs hcut).1.1.2).append hstmts).append hothers).stmt fun γ => ?_
    exact (Fewer.refl _).append (by rw [observe_alternateStmt]; exact .refl _)
  | @forLoop _ _ _ _ _ _ _ _ w _ _ _ w₄ hinit htest hupdate hbody ihinit ihtest ihupdate ih =>
    have hstmts := (ih fun hcut => every_asList (hs hcut).2).asList.inner fun _ => grows hbody
    have ht := (ihtest fun hcut => (hs hcut).1.1.2).inner fun hcut =>
      (grows htest).eq_of_still (and_eq_true_iff.mp (hs hcut).1.1.1.1).1
    have hu := (ihupdate fun hcut => (hs hcut).1.2).inner fun hcut =>
      (grows hupdate).eq_of_still (and_eq_true_iff.mp (hs hcut).1.1.1.1).2
    have hhead := (Traced.scopes (Handed.push w.scopes .forLoop)).append
      (ihinit fun hcut => (hs hcut).1.1.1.2)
    have hparts :=
      hhead.append (((ht.append hu).append hstmts).append (.scopes (Handed.pop w₄.scopes)))
    simp only [nil_append, append_nil] at hparts
    cases hinit with
    | noInit | declareInit | exprInit => exact hparts.stmt fun γ => .refl _
  | forEach each kind pattern _ hbody ih ihbody =>
    simp only [Stmt.every, and_eq_true] at hs
    have hstmts := (ihbody fun hcut => every_asList (hs hcut).2).asList.inner fun _ => grows hbody
    exact (ih fun hcut => (hs hcut).1.2).forEach hstmts
  | whileLoop h hbody ih ihbody =>
    simp only [Stmt.every, and_eq_true] at hs
    have hstmts := (ihbody fun hcut => every_asList (hs hcut).2).asList.inner fun _ => grows hbody
    exact (((ih fun hcut => (hs hcut).1.2).inner fun hcut =>
      (grows h).eq_of_still (hs hcut).1.1).append hstmts).stmt fun γ => .refl _
  | blockStmt _ ih =>
    simp only [Stmt.every, and_eq_true] at hs
    exact (ih fun hcut => (hs hcut).2).stmt fun γ => .refl _
  | breakLoop | continueLoop => exact Traced.nil.stmt fun γ => .refl _
  | noStmts => exact fun _ _ _ => ⟨.nothing, .refl _, fun γ => (Fewer.refl []).within⟩
  | @moreStmts _ _ _ _ _ w₁ _ _ _ ih ihs =>
    intro rest hw hnamed
    obtain ⟨front, new, hstep⟩ := (ih fun hcut => (hs hcut).1).steps hnamed
    have htaken : w₁.taken.hoisted = [] :: rest := by simp [Walk.taken, hstep.hoisted, hw]
    obtain ⟨new', hhanded, hwithin⟩ :=
      ihs (fun hcut => (hs hcut).2) htaken (hstep.handed.named hnamed)
    exact ⟨_, hstep.cons hw hhanded hwithin⟩
  | block h ih =>
    refine ⟨placedAll_antitone _, fun hnamed => ?_⟩
    obtain ⟨new, hhanded, hwithin⟩ := ih hs rfl hnamed
    refine ⟨[], new, hhanded, ?_, fun _ => rfl, hwithin⟩
    rw [grows (.block h)]
    cases Walk.hoisted _ <;> simp
  | @scope _ _ _ w w' _ ih =>
    have hparts := ((Traced.scopes (Handed.push w.scopes _)).append (ih hs)).append
      (.scopes (Handed.pop w'.scopes))
    simpa only [nil_append, append_nil] using hparts
  | @moreDeclarators _ d _ out outs _ _ _ _ _ ih ihs =>
    obtain ⟨id, init⟩ := d
    simp only [everyDeclarator, and_eq_true] at hs
    refine ((ih fun hcut => (hs hcut).1.2).append (ihs fun hcut => (hs hcut).2)).mono
      (placedAll_antitone _) (fewer_placedAll_cons out outs) ?_
    simp [observeDeclarators]
  | takenOff kind _ _ ih =>
    exact (Traced.foldScopes .addContextBound _).append ((ih hs).declarator kind _)
  | plain kind _ _ ih => exact (ih hs).declarator kind _
  | slot kind _ _ ih => exact (ih hs).slot kind _
  | declareInit kind _ ih => exact ih hs kind
  | @moreBindings id _ _ _ _ _ _ _ _ _ ih ihs =>
    intro kind
    have hfirst := (ih fun hcut => (hs hcut).1.2).declarator kind id
    have hrest := ihs (fun hcut => (hs hcut).2) kind
    refine ((hfirst.append (.foldScopes .addLoopVariable _)).append hrest).mono
      (fun _ _ hγ => (placedSights_compares cut).declarators kind _ hγ)
      (fun γ => fewer_of_perm ?_) ?_
    · simp [observeDeclarators]
    · simp [observeDeclarators]

theorem traced_sequence {body out ancestors} (hsteady : cut = true → everyStmt steady body = true)
    (hwalk : Succeeds (sequence (visits body) ancestors) w out w') :
    Traced cut w w' (observeStmts sourceSights () body) fun γ =>
      placedAll cut out (inner cut γ) := by
  have hblock := slotBlock_sequence hwalk
  exact (traced hblock hsteady).inner fun _ => grows hblock

end

end IndicatorCompiler.SlotForm
