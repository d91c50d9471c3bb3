import IndicatorCompiler.Proofs.Succeeds
import IndicatorCompiler.SlotForm.Tree

/-!
# Steps of a walk

What the steps of a walk do to the scopes and to the hoisted statements.
-/

namespace IndicatorCompiler.SlotForm

open Script

variable {α β : Type} {w w' : Walk} {b : β}

@[simp] theorem walks_fail_iff {cause : Cause} {ancestors : Ancestors} {a : α} :
    Succeeds (fail cause ancestors) w a w' ↔ False := by
  simp [fail]

@[simp] theorem walks_fromScopes_iff {f : Scopes → α} {a} :
    Succeeds (fromScopes f) w a w' ↔ a = f w.scopes ∧ w' = w := by
  simp [fromScopes, and_comm]

@[simp] theorem walks_resolve_iff {name r} :
    Succeeds (resolve name) w r w' ↔ r = w.scopes.resolve name ∧ w' = w := by
  simp [resolve]

@[simp] theorem walks_modifyScopes_iff {f : Scopes → Scopes} {a} :
    Succeeds (modifyScopes f) w a w' ↔ w' = { w with scopes := f w.scopes } := by
  simp [modifyScopes]

@[simp] theorem walks_nameFromScopes_iff {f : Scopes → String × Scopes} {name} :
    Succeeds (nameFromScopes f) w name w' ↔
      name = (f w.scopes).1 ∧ w' = { w with scopes := (f w.scopes).2 } := by
  simp [nameFromScopes]

@[simp] theorem walks_takeHoisted_iff {stmts} : Succeeds takeHoisted w stmts w' ↔
        stmts = w.hoisted.headD [] ∧ w' = { w with hoisted := match w.hoisted with
                | [] => []
                | _ :: rest => [] :: rest } := by
  obtain ⟨scopes, hoisted⟩ := w
  cases hoisted <;> simp [takeHoisted]

/-! ## Steps that always succeed

Behind a step that only looks at the walk, or changes it in a known way, the walk goes on from a
known place. -/

@[simp high] theorem walks_fromScopes_bind_iff {g : Scopes → α} {f : α → Slotting β} :
    Succeeds (fromScopes g >>= f) w b w' ↔ Succeeds (f (g w.scopes)) w b w' :=
  Succeeds.bind_iff (by simp)

@[simp high] theorem walks_resolve_bind_iff {name} {f : Resolution → Slotting β} :
    Succeeds (resolve name >>= f) w b w' ↔ Succeeds (f (w.scopes.resolve name)) w b w' :=
  Succeeds.bind_iff (by simp)

@[simp high] theorem walks_modifyScopes_bind_iff {g : Scopes → Scopes} {f : PUnit → Slotting β} :
    Succeeds (modifyScopes g >>= f) w b w' ↔ Succeeds (f ⟨⟩) { w with scopes := g w.scopes } b w' :=
  Succeeds.bind_iff (by simp)

@[simp high] theorem walks_nameFromScopes_bind_iff {g : Scopes → String × Scopes}
    {f : String → Slotting β} : Succeeds (nameFromScopes g >>= f) w b w' ↔
      Succeeds (f (g w.scopes).1) { w with scopes := (g w.scopes).2 } b w' :=
  Succeeds.bind_iff (by simp)

end IndicatorCompiler.SlotForm
