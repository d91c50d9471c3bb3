import IndicatorCompiler.Proofs.DeclaredNames
import IndicatorCompiler.Proofs.RoundTrip
import IndicatorCompiler.Proofs.TracedTree

/-!
# Identities and captures

The identities that a slot form inserts are distinct, each capture is declared once, and it is
declared in front of what uses it.  If nothing is hoisted out of loops and functions, a capture is
declared in the same loop and the same function as what uses it.

What is inserted is told from what the source has by counting: a default of a destructuring
assignment is written out once for each name below it, and counts as often.
-/

namespace IndicatorCompiler.SlotForm

open Script Survey

/-! ## Surveyed units -/

/-- A surveyed unit has the normal form of the body of its entry function. -/
theorem survey_eq_ok {program s} (h : survey program = .ok s) :
    ∃ source, entry program = .ok ⟨s.rootName, source⟩ ∧ NormalForm.normalBody source
      (knownScopes s.rootName (namesInStmts source) (contextNames s.rootName source)) =
        .ok (s.body, s.scopes) := by
  unfold survey at h
  split at h
  · cases h
  · rename_i root source hentry
    simp only at h
    split at h
    · cases h
    · rename_i body scopes hnormal
      cases h
      exact ⟨source, hentry, hnormal⟩

section

variable (root : String) (uses : List NameUse) (contextBound : List String)

theorem foldl_keeps {α β γ : Type} (f : α → β → α) (g : α → γ) (h : ∀ a b, g (f a b) = g a)
    (bs : List β) (a : α) : g (bs.foldl f a) = g a := by
  induction bs generalizing a with
  | nil => rfl
  | cons b bs ih => rw [List.foldl_cons, ih, h]

/-- What is known of names does not bind them. -/
theorem knownScopes_stack : (knownScopes root uses contextBound).stack = [⟨.global, 1, []⟩] := by
  unfold knownScopes
  simp only
  rw [foldl_keeps Scopes.markContextBound Scopes.stack fun _ _ => rfl,
    foldl_keeps Scopes.addUserFunction Scopes.stack fun _ _ => rfl,
    foldl_keeps Scopes.reserve Scopes.stack fun _ _ => rfl]
  rfl

theorem knownScopes_rootName : (knownScopes root uses contextBound).rootName = root := by
  unfold knownScopes
  simp only
  rw [foldl_keeps Scopes.markContextBound Scopes.rootName fun _ _ => rfl,
    foldl_keeps Scopes.addUserFunction Scopes.rootName fun _ _ => rfl,
    foldl_keeps Scopes.reserve Scopes.rootName fun _ _ => rfl]
  rfl

theorem reserved_foldl_reserve (names : List String) (s : Scopes) :
    (names.foldl Scopes.reserve s).reserved = names.reverse ++ s.reserved := by
  induction names generalizing s with
  | nil => rfl
  | cons x names ih => simp [ih, Scopes.reserve]

theorem knownScopes_reserved :
    (knownScopes root uses contextBound).reserved = (uses.map (·.name)).reverse := by
  unfold knownScopes
  simp only
  rw [foldl_keeps Scopes.markContextBound Scopes.reserved fun _ _ => rfl,
    foldl_keeps Scopes.addUserFunction Scopes.reserved fun _ _ => rfl, reserved_foldl_reserve]
  exact List.append_nil _

end

/-- Scopes that hand out temporaries hand out nothing that counts. -/
def handsNothing (root : String) (s₀ : Scopes) : NormalForm.TempInvariant root where
  Holds s := s.rootName = root ∧ Handed s₀ s .nothing
  root _ h := h.1
  temp s h := by
    obtain ⟨-, -, htemp⟩ := Handed.generateTemp s
    exact ⟨h.1, (h.2.andThen (htemp [])).andThen (.addTemp _ _)⟩

/-- What a walk through a surveyed unit starts with. -/
theorem survey_spec {program s} (h : survey program = .ok s) :
    SlotsNamed s.scopes ∧ ∀ n, captureName n ∉ s.scopes.reserved →
      .constant (captureName n) ∉ observeStmts sourceSights () s.body := by
  obtain ⟨source, -, hnormal⟩ := survey_eq_ok h
  have hroot :=
    knownScopes_rootName s.rootName (namesInStmts source) (contextNames s.rootName source)
  obtain ⟨⟨-, hhanded⟩, hbody⟩ := NormalForm.yields_normalStmts (handsNothing _ _) source
    ⟨hroot, .refl _⟩ hnormal
  refine ⟨hhanded.named ?_, fun n hn hmem => ?_⟩
  · intro scope hscope
    rw [knownScopes_stack] at hscope
    simp [List.mem_singleton.mp hscope]
  · rw [hhanded.reserved, knownScopes_reserved, List.mem_reverse] at hn
    rcases known_normalStmts hbody _ hmem with hname | ⟨m, hm⟩
    · exact hn hname
    · exact tempName_ne_captureName m n hm.symm

/-! ## Walks through units -/

/-- The sights of a unit in slot form are those of its source and what was inserted. -/
theorem slotUnit_within {cut body scopes unit} (hsteady : cut = true → everyStmt steady body = true)
    (hnamed : SlotsNamed scopes) (h : slotUnit body scopes = .ok unit) :
    ∃ scopes' new, Handed scopes scopes' new ∧
      Within (unit.observe (placedSights cut) []) (observeStmts sourceSights () body) new := by
  unfold slotUnit at h
  cases hrun : (sequence (visits body) []).run ⟨scopes, []⟩ with
  | error e => simp [hrun, bind, Except.bind] at h
  | ok result =>
    obtain ⟨out, w⟩ := result
    simp only [hrun, bind, Except.bind, pure, Except.pure, Except.ok.injEq] at h
    subst h
    obtain ⟨front, new, hstep⟩ := (traced_sequence hsteady hrun).steps hnamed
    obtain rfl := hstep.front_nil rfl
    exact ⟨w.scopes, new, hstep.handed, hstep.within []⟩

/-- The identities among the sights `out` of a slot form, whose source has the sights `src`. -/
structure Identities (src out : List Sight) (calls captures : List String) : Prop where
  /-- Identities of calls are named after a library, or after the calls of declared functions. -/
  callIds : ∀ id ∈ calls, ∃ stem ∈ callStems, ∃ n, id = callId stem n
  captureNames : ∀ p ∈ captures, ∃ n, p = captureName n
  distinct : (calls ++ captures).Nodup
  /-- Each of them is inserted once. -/
  inserted : ∀ t, out.count (.literal t) = src.count (.literal t) + (calls ++ captures).count t
  /-- Each capture is declared once. -/
  declared : ∀ p ∈ captures, out.count (.constant p) = 1
  /-- Only the source uses names of captures where none is declared. -/
  used : ∀ n, out.count (.name (captureName n)) ≤ src.count (.name (captureName n))

theorem nodup_callIds {calls : List (String × Nat)} (h : (calls.map (·.2)).Pairwise (· < ·))
    (hstems : ∀ c ∈ calls, c.1 ∈ callStems) : (calls.map fun c => callId c.1 c.2).Nodup := by
  rw [List.pairwise_map] at h
  refine List.pairwise_map.mpr (h.imp_of_mem fun {a b} ha hb hlt heq => ?_)
  have hsame := callId_inj (hstems a ha) (hstems b hb) heq
  omega

theorem identities_of_within {src out : List Sight} {scopes scopes' new}
    (hhanded : Handed scopes scopes' new) (hwithin : Within out src new)
    (hfresh : ∀ n ∈ new.captures, .constant (captureName n) ∉ src) :
    Identities src out (new.calls.map fun c => callId c.1 c.2) (new.captures.map captureName) where
  callIds id hid := by
    obtain ⟨c, hc, rfl⟩ := List.mem_map.mp hid
    exact ⟨c.1, hhanded.stems c hc, c.2, rfl⟩
  captureNames p hp := by
    obtain ⟨n, -, rfl⟩ := List.mem_map.mp hp
    exact ⟨n, rfl⟩
  distinct := by
    refine List.nodup_append.mpr ⟨nodup_callIds hhanded.calls.increasing hhanded.stems, ?_, ?_⟩
    · refine List.pairwise_map.mpr (hhanded.captures.increasing.imp fun hlt heq => ?_)
      have hsame := captureName_inj heq
      omega
    · intro id hid p hp heq
      obtain ⟨c, hc, rfl⟩ := List.mem_map.mp hid
      obtain ⟨n, -, rfl⟩ := List.mem_map.mp hp
      exact callId_ne_captureName (hhanded.stems c hc) c.2 n heq
  inserted := hwithin.literals
  declared p hp := by
    obtain ⟨n, hn, rfl⟩ := List.mem_map.mp hp
    have hsource := List.count_eq_zero.mpr (hfresh n hn)
    have honce : new.captures.count n = 1 := List.count_eq_one_of_mem
      (hhanded.captures.increasing.imp Nat.ne_of_lt) hn
    have hlow := hwithin.captured n
    have hhigh := hwithin.constants n
    omega
  used := hwithin.names

/-- In the slot form of every unit the identities are distinct, and captures are declared once, in
front of what uses them in the same list of statements. -/
theorem slotUnit_identities {program : Program} {s : Surveyed} {unit : Expr}
    (hsurvey : survey program = .ok s) (hunit : slotUnit s.body s.scopes = .ok unit) :
    ∃ calls captures, Identities (observeStmts sourceSights () s.body)
      (unit.observe (placedSights false) []) calls captures := by
  obtain ⟨hnamed, hhygiene⟩ := survey_spec hsurvey
  have hsteady : false = true → everyStmt steady s.body = true := by simp
  obtain ⟨scopes', new, hhanded, hwithin⟩ := slotUnit_within hsteady hnamed hunit
  exact ⟨_, _, identities_of_within hhanded hwithin fun n hn => hhygiene n (hhanded.fresh n hn)⟩

/-- The source is read, surveyed and brought into slot form. -/
def Slotted (source : String) (s : Surveyed) (unit : Expr) : Prop :=
  ∃ program, Program.ofSource source = .ok program ∧ survey program = .ok s ∧
    slotUnit s.body s.scopes = .ok unit

theorem exists_slotted {source} {p : Surveyed → Expr → Bool}
    (h : ((Program.ofSource source).toOption.any fun program => (survey program).toOption.any
      fun s => (slotUnit s.body s.scopes).toOption.any (p s)) = true) :
    ∃ s unit, Slotted source s unit ∧ p s unit = true := by
  obtain ⟨program, hprogram, h⟩ := eq_ok_of_any h
  obtain ⟨s, hs, h⟩ := eq_ok_of_any h
  obtain ⟨unit, hunit, h⟩ := eq_ok_of_any h
  exact ⟨s, unit, ⟨program, hprogram, hs, hunit⟩, h⟩

/-- Calls of a library and of a declared function, nested and in loops, with names of captures that
are taken. -/
def nestedCalls : String :=
  "($) => \x7b let x = 0, p0 = 1; function f(a) \x7b return ta.sma(a, ta.ema(a, 3)); \x7d " ++
  "for (let i = 0; i < 2; i++) \x7b [x, p0 = ta.sma(x, i)] = f(ta.ema(x + 1, f(x))); \x7d \x7d"

theorem nestedCalls_identities : ∃ s unit, Slotted nestedCalls s unit ∧
    ∃ calls captures, Identities (observeStmts sourceSights () s.body)
      (unit.observe (placedSights false) []) calls captures := by
  obtain ⟨s, unit, hslotted, -⟩ : ∃ s unit, Slotted nestedCalls s unit ∧ true = true :=
    exists_slotted (any_ofSource (toList_append_of String.toList_ofList) (by decide +kernel))
  obtain ⟨program, -, hs, hunit⟩ := id hslotted
  exact ⟨s, unit, hslotted, slotUnit_identities hs hunit⟩

/-! ## Loops and functions -/

/-- The sights `out` of a slot form, with nothing in reach from outside of a loop or a function, and
those of its source. -/
structure Repeated (src out : List Sight) : Prop where
  /-- A capture is declared in the loop and the function that use it. -/
  captures : ∀ n, out.count (.name (captureName n)) ≤ src.count (.name (captureName n))
  /-- So is the slot of a temporary initialised, unless the temporary is a constant. -/
  temporaries : ∀ (scope : Scope) n, .slot (scope.slotName (tempName n)) ∈ out →
    .slot (scope.slotName (tempName n)) ∈ src ∨ .name (tempName n) ∈ src ∨
    .constant (tempName n) ∈ out

/-- If no test or update of a loop and no default of a parameter hoists anything, then captures are
evaluated as often as what uses them: in the same round of each loop, and in the same activation of
each function. -/
theorem slotUnit_repeated {program : Program} {s : Surveyed} {unit : Expr}
    (hsurvey : survey program = .ok s) (hunit : slotUnit s.body s.scopes = .ok unit)
    (hsteady : everyStmt steady s.body = true) :
    Repeated (observeStmts sourceSights () s.body) (unit.observe (placedSights true) []) := by
  obtain ⟨hnamed, -⟩ := survey_spec hsurvey
  obtain ⟨scopes', new, -, hwithin⟩ := slotUnit_within (fun _ => hsteady) hnamed hunit
  refine ⟨hwithin.names, fun scope n hmem => ?_⟩
  exact (hwithin.slots scope n hmem).imp id (.imp id (hwithin.temps n))

/-- Captures in bodies of loops, in functions, in branches and at the start of a loop. -/
def steadyCalls : String :=
  "($) => \x7b let x = 0; const f = (a, b = [a]) => ta.sma(a + x, 3)[1]; " ++
  "for (let i = ta.ema(x, 2); i < 2; i++) " ++
  "\x7b while (f(x) > 1) if (x) x += ta.change(x)[i]; \x7d \x7d"

theorem steadyCalls_repeated : ∃ s unit, Slotted steadyCalls s unit ∧
    everyStmt steady s.body = true ∧
    Repeated (observeStmts sourceSights () s.body) (unit.observe (placedSights true) []) := by
  obtain ⟨s, unit, hslotted, hsteady⟩ : ∃ s unit, Slotted steadyCalls s unit ∧
      everyStmt steady s.body = true := exists_slotted
    (any_ofSource (toList_append_of (toList_append_of String.toList_ofList)) (by decide +kernel))
  obtain ⟨program, -, hs, hunit⟩ := id hslotted
  exact ⟨s, unit, hslotted, hsteady, slotUnit_repeated hs hunit hsteady⟩

/-- A capture is used in a loop or a function that it is not declared in. -/
def CapturesOutside (source : String) : Prop :=
  ∃ s unit, Slotted source s unit ∧
  ∃ n, (observeStmts sourceSights () s.body).count (.name (captureName n)) <
    (unit.observe (placedSights true) []).count (.name (captureName n))

theorem capturesOutside_of_first {source}
    (h : ((Program.ofSource source).toOption.any fun program => (survey program).toOption.any
      fun s => (slotUnit s.body s.scopes).toOption.any fun unit =>
        decide ((observeStmts sourceSights () s.body).count (.name (captureName 0)) <
          (unit.observe (placedSights true) []).count (.name (captureName 0)))) = true) :
    CapturesOutside source := by
  obtain ⟨s, unit, hslotted, hcount⟩ := exists_slotted h
  exact ⟨s, unit, hslotted, 0, of_decide_eq_true hcount⟩

/-- Captures of calls in tests and updates of loops, and in defaults of parameters, are evaluated in
front of the loop or the function. -/
theorem capturesOutside_heads :
    CapturesOutside "($) => \x7b let x = 0; while (ta.change(x) < 3) \x7b x += 1; \x7d \x7d" ∧
      CapturesOutside "($) => \x7b let x = 0; for (; ta.change(x) < 3; ) \x7b x += 1; \x7d \x7d" ∧
      CapturesOutside "($) => \x7b let x = 0; for (; ; ta.change(x)) \x7b x += 1; \x7d \x7d" ∧
      CapturesOutside
        "($) => \x7b let x = 0; function f(a = ta.change(x)) \x7b return a; \x7d \x7d" := by
  refine ⟨?_, ?_, ?_, ?_⟩ <;>
    exact capturesOutside_of_first (any_ofSource String.toList_ofList (by decide +kernel))

end IndicatorCompiler.SlotForm
