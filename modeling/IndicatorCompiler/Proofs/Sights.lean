import Mathlib.Data.List.Basic
import IndicatorCompiler.Proofs.FreshNames
import IndicatorCompiler.Proofs.Observer

/-!
# Sights

What has to be said about the names that a slot form inserts is said by counting.  A sight is
something that stands in a tree: a name that is used, a string literal, a constant that is declared,
a slot that is mentioned.  `sourceSights` lists them all.  `placedSights` leaves out the uses of
names and slots that are in reach: a constant, and the slot that a statement initialises, are in
reach in the statements behind it in the same list, and in everything that is nested in those.  With
`cut`, nothing reaches from the outside into a function, or into what a loop evaluates again.

`Within` compares the sights of a tree with those of its slot form, up to what was inserted.
-/

namespace IndicatorCompiler.SlotForm

open Script
open List (count_append)

/-- Something that stands in a tree. -/
inductive Sight where
  /-- A name is used. -/
  | name (x : String)
  /-- A string literal. -/
  | literal (value : String)
  /-- A `const` binds the name. -/
  | constant (x : String)
  /-- A slot of a `let` is mentioned; in a source, any member or key of that name. -/
  | slot (renamed : String)
  deriving DecidableEq

/-- The constants that are declared. -/
def declaredSights (kind : VarKind) (names : List String) : List Sight :=
  if kind = .constant then names.map .constant else []

/-- All sights. -/
def sourceSights : Observer Unit Sight where
  name _ x := [.name x]
  text _ value := [.literal value]
  member _ _ x := [.slot x]
  key _ x := [.slot x]
  declare _ := declaredSights
  enter _ γ := γ
  within _ γ := γ
  behind _ γ := γ
  bind _ γ := γ
  again γ := γ
  inside γ := γ
  perName := true

/-- `$.let` -/
def isLexicalSlots : Expr → Bool
  | .member (.ident c) kind => c == contextName && kind == VarKind.lexical.text
  | _ => false

/-- The slots that a statement `$.let.x = $.init(…)` initialises. -/
def initialised : Stmt → List Sight
  | .expr (.assign .assign (.member base x) (.call (.member (.ident c) method) _)) =>
    if isLexicalSlots base && c == contextName && method == "init" then [.slot x] else []
  | _ => []

/-- What the statements behind a statement can use. -/
def offered : Stmt → List Sight
  | .var .constant decls => decls.flatMap fun d => d.id.boundNames.map .name
  | stmt => initialised stmt

/-- The sights that are out of reach, and the literals and constants. -/
def placedSights (cut : Bool) : Observer (List Sight) Sight where
  name γ x := if .name x ∈ γ then [] else [.name x]
  text _ value := [.literal value]
  member γ base x := if isLexicalSlots base ∧ .slot x ∉ γ then [.slot x] else []
  key _ _ := []
  declare _ := declaredSights
  enter _ γ := γ
  within stmt γ := initialised stmt ++ γ
  behind stmt γ := offered stmt ++ γ
  bind _ γ := γ
  again γ := if cut then [] else γ
  inside γ := if cut then [] else γ
  perName := true

/-! ## Fewer sights -/

/-- As many literals and constants, and no more captures and slots. -/
structure Fewer (a b : List Sight) : Prop where
  literals (t : String) : a.count (.literal t) = b.count (.literal t)
  constants (x : String) : a.count (.constant x) = b.count (.constant x)
  names (n : Nat) : a.count (.name (captureName n)) ≤ b.count (.name (captureName n))
  slots (x : String) : .slot x ∈ a → .slot x ∈ b

theorem Fewer.refl (a : List Sight) : Fewer a a :=
  ⟨fun _ => rfl, fun _ => rfl, fun _ => Nat.le_refl _, fun _ => id⟩

variable {a b c : List Sight} {temps : List Nat}

theorem Fewer.trans (h : Fewer a b) (h' : Fewer b c) : Fewer a c :=
  ⟨fun t => (h.literals t).trans (h'.literals t), fun x => (h.constants x).trans (h'.constants x),
    fun x => Nat.le_trans (h.names x) (h'.names x), fun x hx => h'.slots x (h.slots x hx)⟩

theorem Fewer.append {d} (h : Fewer a b) (h' : Fewer c d) : Fewer (a ++ c) (b ++ d) where
  literals t := by simp only [count_append, h.literals, h'.literals]
  constants x := by simp only [count_append, h.constants, h'.constants]
  names x := by
    simp only [count_append]
    exact Nat.add_le_add (h.names x) (h'.names x)
  slots x hx := by
    rw [List.mem_append] at hx ⊢
    exact hx.imp (h.slots x) (h'.slots x)

theorem fewer_of_perm (h : a.Perm b) : Fewer a b :=
  ⟨fun _ => h.count_eq _, fun _ => h.count_eq _, fun _ => Nat.le_of_eq (h.count_eq _),
    fun _ => h.mem_iff.mp⟩

/-- The less is in reach, the more is seen. -/
theorem placedSights_compares (cut : Bool) :
    (placedSights cut).Compares (placedSights cut) (fun γ δ => δ ⊆ γ) Fewer where
  nil := .refl []
  append := .append
  name x h := by
    simp only [placedSights]
    split
    · split <;> exact ⟨by simp, by simp, by simp, by simp⟩
    · rename_i hx
      rw [if_neg fun hmem => hx (h hmem)]
      exact .refl _
  text _ _ := .refl _
  member base x h := by
    simp only [placedSights]
    split
    · rename_i hx
      rw [if_pos ⟨hx.1, fun hmem => hx.2 (h hmem)⟩]
      exact .refl _
    · split <;> exact ⟨by simp, by simp, by simp, by simp⟩
  key _ _ := .refl _
  declare _ _ _ := .refl _
  enter _ h := h
  within _ h :=
    List.append_subset.mpr ⟨List.subset_append_left _ _, List.subset_append_of_subset_right _ h⟩
  behind _ h :=
    List.append_subset.mpr ⟨List.subset_append_left _ _, List.subset_append_of_subset_right _ h⟩
  bind _ h := h
  again h := by
    simp only [placedSights]
    split
    · exact List.Subset.refl _
    · exact h
  inside h := by
    simp only [placedSights]
    split
    · exact List.Subset.refl _
    · exact h
  perName := rfl

/-- What is out of reach is among all sights. -/
theorem placedSights_compares_source (cut : Bool) :
    (placedSights cut).Compares sourceSights (fun _ _ => True) Fewer where
  nil := .refl []
  append := .append
  name x _ := by
    simp only [placedSights, sourceSights]
    split
    · exact ⟨by simp, by simp, by simp, by simp⟩
    · exact .refl _
  text _ _ := .refl _
  member base x _ := by
    simp only [placedSights, sourceSights]
    split
    · exact .refl _
    · exact ⟨by simp, by simp, by simp, by simp⟩
  key _ _ := ⟨by simp [placedSights, sourceSights], by simp [placedSights, sourceSights],
    by simp [placedSights], by simp [placedSights]⟩
  declare _ _ _ := .refl _
  enter _ _ := trivial
  within _ _ := trivial
  behind _ _ := trivial
  bind _ _ := trivial
  again _ := trivial
  inside _ := trivial
  perName := rfl

/-! ## What was inserted -/

/-- The calls that got an identity, by stem and number, and the captures and the temporaries that
are constants, by number. -/
structure Inserted where
  calls : List (String × Nat)
  captures : List Nat
  temps : List Nat

namespace Inserted

/-- Nothing was inserted. -/
def nothing : Inserted := ⟨[], [], []⟩

/-- What two steps insert, one after the other. -/
def andThen (a b : Inserted) : Inserted :=
  ⟨a.calls ++ b.calls, a.captures ++ b.captures, a.temps ++ b.temps⟩

/-- The identities, as the literals that were inserted. -/
def ids (new : Inserted) : List String :=
  new.calls.map (fun c => callId c.1 c.2) ++ new.captures.map captureName

theorem count_ids_andThen (a b : Inserted) (t : String) :
    (a.andThen b).ids.count t = a.ids.count t + b.ids.count t := by
  simp only [ids, andThen, List.map_append, count_append]
  omega

end Inserted

/-- The sights `out` of a slot form are those of its source and what was inserted.  Uses of captures
and mentions of slots of temporaries are in reach, unless the source has them itself or the
temporary is a constant. -/
structure Within (out src : List Sight) (new : Inserted) : Prop where
  literals (t : String) : out.count (.literal t) = src.count (.literal t) + new.ids.count t
  captured (n : Nat) : new.captures.count n ≤ out.count (.constant (captureName n))
  constants (n : Nat) : out.count (.constant (captureName n)) ≤
    src.count (.constant (captureName n)) + new.captures.count n
  names (n : Nat) : out.count (.name (captureName n)) ≤ src.count (.name (captureName n))
  temps (n : Nat) : n ∈ new.temps → .constant (tempName n) ∈ out
  slots (s : Scope) (n : Nat) : .slot (s.slotName (tempName n)) ∈ out →
    .slot (s.slotName (tempName n)) ∈ src ∨ .name (tempName n) ∈ src ∨ n ∈ new.temps

theorem Fewer.within (h : Fewer a b) : Within a b .nothing where
  literals t := by simp [h.literals t, Inserted.nothing, Inserted.ids]
  captured _ := Nat.zero_le _
  constants n := by simp [h.constants, Inserted.nothing]
  names n := h.names _
  temps := nofun
  slots s n hmem := .inl (h.slots _ hmem)

namespace Within

variable {a b c d : List Sight} {new new' : Inserted}

theorem append (h : Within a b new) (h' : Within c d new') :
    Within (a ++ c) (b ++ d) (new.andThen new') where
  literals t := by
    have h₁ := h.literals t
    have h₂ := h'.literals t
    have h₃ := Inserted.count_ids_andThen new new' t
    simp only [count_append]
    omega
  captured n := by
    have h₁ := h.captured n
    have h₂ := h'.captured n
    simp only [Inserted.andThen, count_append]
    omega
  constants n := by
    have h₁ := h.constants n
    have h₂ := h'.constants n
    simp only [Inserted.andThen, count_append]
    omega
  names n := by
    have h₁ := h.names n
    have h₂ := h'.names n
    simp only [count_append]
    omega
  temps n hn := by
    rw [List.mem_append]
    exact (List.mem_append.mp hn).imp (h.temps n) (h'.temps n)
  slots s n hmem := by
    simp only [Inserted.andThen, List.mem_append] at hmem ⊢
    have h₁ := h.slots s n
    have h₂ := h'.slots s n
    grind

theorem of_fewer (h : Within b c new) (hab : Fewer a b) : Within a c new where
  literals t := (hab.literals t).trans (h.literals t)
  captured n := by rw [hab.constants]; exact h.captured n
  constants n := by rw [hab.constants]; exact h.constants n
  names n := Nat.le_trans (hab.names n) (h.names n)
  temps n hn := by
    have hconstant := h.temps n hn
    rw [← List.count_pos_iff] at hconstant ⊢
    rwa [hab.constants]
  slots s n hmem := h.slots s n (hab.slots _ hmem)

end Within

/-- The second source has the sights of the first that count, but for the temporaries in `temps`. -/
structure Sourced (temps : List Nat) (b c : List Sight) : Prop where
  literals (t : String) : b.count (.literal t) = c.count (.literal t)
  constants (x : String) : b.count (.constant x) ≤ c.count (.constant x)
  names (n : Nat) : b.count (.name (captureName n)) ≤ c.count (.name (captureName n))
  temporaries (n : Nat) : .name (tempName n) ∈ b → .name (tempName n) ∈ c ∨ n ∈ temps
  slots (s : Scope) (x : String) : .slot (s.slotName x) ∈ b → .slot (s.slotName x) ∈ c

theorem sourced_of_perm (h : b.Perm c) (temps : List Nat) : Sourced temps b c :=
  ⟨fun _ => h.count_eq _, fun _ => Nat.le_of_eq (h.count_eq _),
    fun _ => Nat.le_of_eq (h.count_eq _),
    fun _ hmem => .inl (h.mem_iff.mp hmem), fun _ _ => h.mem_iff.mp⟩

theorem Sourced.append {d} (h : Sourced temps a b) (h' : Sourced temps c d) :
    Sourced temps (a ++ c) (b ++ d) where
  literals t := by simp only [count_append, h.literals, h'.literals]
  constants x := by
    simp only [count_append]
    exact Nat.add_le_add (h.constants x) (h'.constants x)
  names n := by
    simp only [count_append]
    exact Nat.add_le_add (h.names n) (h'.names n)
  temporaries n hmem := by
    have h₁ := h.temporaries n
    have h₂ := h'.temporaries n
    grind
  slots s x hmem := by
    have h₁ := h.slots s x
    have h₂ := h'.slots s x
    grind

theorem Sourced.trans (h : Sourced temps a b) (h' : Sourced temps b c) : Sourced temps a c where
  literals t := (h.literals t).trans (h'.literals t)
  constants x := Nat.le_trans (h.constants x) (h'.constants x)
  names n := Nat.le_trans (h.names n) (h'.names n)
  temporaries n hmem := (h.temporaries n hmem).elim (h'.temporaries n) .inr
  slots s x hmem := h'.slots s x (h.slots s x hmem)

theorem Sourced.mono {temps'} (h : Sourced temps b c) (hsub : temps ⊆ temps') :
    Sourced temps' b c where
  literals := h.literals
  constants := h.constants
  names := h.names
  temporaries n hmem := (h.temporaries n hmem).imp id fun hn => hsub hn
  slots := h.slots

theorem sourced_temp (n : Nat) : Sourced [n] [.name (tempName n)] [] where
  literals t := by simp
  constants x := by simp
  names m := by simp [tempName_ne_captureName n m]
  temporaries m hmem := by
    rw [List.mem_singleton, Sight.name.injEq] at hmem
    simp [tempName_inj hmem]
  slots := by simp

theorem sourceSights_compares (temps : List Nat) :
    sourceSights.Compares sourceSights (fun _ _ => True) (Sourced temps) where
  nil := sourced_of_perm (.refl _) _
  append := .append
  name _ _ := sourced_of_perm (.refl _) _
  text _ _ := sourced_of_perm (.refl _) _
  member _ _ _ := sourced_of_perm (.refl _) _
  key _ _ := sourced_of_perm (.refl _) _
  declare _ _ _ := sourced_of_perm (.refl _) _
  enter _ := id
  within _ := id
  behind _ := id
  bind _ := id
  again := id
  inside := id
  perName := rfl

theorem Within.of_sourced {new} (h : Within a b new) (hbc : Sourced new.temps b c) :
    Within a c new where
  literals t := by rw [← hbc.literals]; exact h.literals t
  captured := h.captured
  constants n := Nat.le_trans (h.constants n) (Nat.add_le_add_right (hbc.constants _) _)
  names n := Nat.le_trans (h.names n) (hbc.names n)
  temps := h.temps
  slots s n hmem := by
    rcases h.slots s n hmem with hslot | hname | htemp
    · exact .inl (hbc.slots s _ hslot)
    · exact .inr (hbc.temporaries n hname)
    · exact .inr (.inr htemp)

end IndicatorCompiler.SlotForm
