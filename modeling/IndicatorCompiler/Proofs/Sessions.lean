import IndicatorCompiler.Proofs.Emission

/-!
# Sessions

Several programs can be lowered one after the other.  Each of them leaves nothing behind but names,
and no generated name is given twice.
-/

namespace IndicatorCompiler.Lowering

open Pine

/-- The state after a program. -/
def Generator.after (g : Generator) (program : Program) : Generator :=
  ((lowerProgram program).run g).2

/-- The names that a program declares. -/
def programNames (program : Program) : List String := (declaredIn program.body).map (·.name)

/-- The names that are generated for a program: they are declared behind its own. -/
def generatedFor (g : Generator) (program : Program) : List String :=
  (g.after program).declared.take
    ((g.after program).declared.length - (programNames program ++ g.declared).length)

/-- The names that are generated in a session. -/
def generatedIn (g : Generator) : List Program → List String
  | [] => []
  | program :: rest => generatedFor g program ++ generatedIn (g.after program) rest

/-- One program empties the output and declares its names and then generated ones. -/
theorem after_spec (g : Generator) (program : Program) : (g.after program).output = [] ∧
      (g.after program).declared = generatedFor g program ++ (programNames program ++ g.declared) ∧
      Generated (programNames program ++ g.declared) (generatedFor g program) := by
  let start : Generator := { ((declare (declaredIn program.body)).run g).2 with level := 1 }
  have hbody := follows_body (S := .ofState start) (follows_stmts program.body False.elim)
  obtain ⟨-, -, hreached, -⟩ := hbody.run .discard "" (Scene.holds_ofState start)
  obtain ⟨names, hnames, hgenerated⟩ := hreached.generated
  have hafter : (g.after program).declared = names ++ (programNames program ++ g.declared) := hnames
  have hfor : generatedFor g program = names := by simp [generatedFor, hafter]
  exact ⟨rfl, by rw [hfor, hafter], hfor ▸ hgenerated⟩

/-- No generated name is given twice in a session, or declared before. -/
theorem generatedIn_spec (g : Generator) (programs : List Program) :
    (generatedIn g programs).Nodup ∧ ∀ n ∈ generatedIn g programs, n ∉ g.declared := by
  induction programs generalizing g with
  | nil => exact ⟨List.nodup_nil, nofun⟩
  | cons program rest ih =>
    obtain ⟨-, hdeclared, hnodup, hnew⟩ := after_spec g program
    obtain ⟨hrest, hnot⟩ := ih (g.after program)
    rw [hdeclared] at hnot
    simp only [List.mem_append, not_or] at hnot hnew
    refine ⟨List.nodup_append.mpr ⟨hnodup, hrest, ?_⟩, List.forall_mem_append.mpr ⟨?_, ?_⟩⟩
    · rintro n hn _ hn' rfl
      exact (hnot n hn').1 hn
    · exact fun n hn => (hnew n hn).1.2
    · exact fun n hn => (hnot n hn).2.2

/-- What is declared before a session or by one of its programs is declared from then on. -/
theorem declared_session {n} (programs : List Program) {g}
    (h : n ∈ g.declared ∨ ∃ p ∈ programs, n ∈ programNames p) :
    n ∈ (programs.foldl Generator.after g).declared := by
  induction programs generalizing g with
  | nil => simpa using h
  | cons program rest ih =>
    refine ih ?_
    rw [(after_spec g program).2.1]
    simp only [List.mem_append, List.exists_mem_cons_iff] at h ⊢
    tauto

/-- **A session stays consistent.**  Each program leaves the output empty.  Writing an expression or
a statement on the way only appends, and comes back to the level where it started.  The generated
names are pairwise distinct, and none is declared by a program up to then. -/
theorem session_consistent (g : Generator) (programs : List Program) :
    (∀ (h : Generator) (x : Expr), ((lowerExpr x).text.run h).2.level = h.level ∧
        ∃ new, ((lowerExpr x).text.run h).2.output = h.output ++ new) ∧
      (∀ (h : Generator) (stmt : StmtKind), ((lowerStmt stmt).effect.run h).2.level = h.level ∧
        ∃ new, ((lowerStmt stmt).effect.run h).2.output = h.output ++ new) ∧
      (∀ h : Generator, ((freshName switchStem).run h).2.declared =
        ((freshName switchStem).run h).1 :: h.declared) ∧
      (generatedIn g programs).Nodup ∧
      ∀ program, ((programs.foldl Generator.after g).after program).output = [] ∧
        ∀ n ∈ generatedFor (programs.foldl Generator.after g) program,
          (∃ k : Nat, n = switchStem ++ toString k) ∧ ∀ p ∈ program :: programs, n ∉
            programNames p := by
  refine ⟨fun h x => ?_, fun h stmt => ?_, fun _ => rfl, (generatedIn_spec g programs).1,
    fun program => ?_⟩
  · obtain ⟨new, houtput, hreached, -⟩ := (follows_expr x False.elim).text (Scene.holds_ofState h)
    exact ⟨hreached.level, new, houtput⟩
  · obtain ⟨new, houtput, hreached, -⟩ :=
      (follows_stmt stmt False.elim).run .discard "" (Scene.holds_ofState h)
    exact ⟨hreached.level, new, houtput⟩
  · obtain ⟨houtput, -, -, hnew⟩ := after_spec (programs.foldl Generator.after g) program
    refine ⟨houtput, fun n hn => ⟨(hnew n hn).2, fun p hp hmem => (hnew n hn).1 ?_⟩⟩
    rcases List.mem_cons.mp hp with rfl | hp
    · exact List.mem_append_left _ hmem
    · exact List.mem_append_right _ (declared_session programs (.inr ⟨p, hp, hmem⟩))

end IndicatorCompiler.Lowering
