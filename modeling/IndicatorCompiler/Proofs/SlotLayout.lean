import IndicatorCompiler.Proofs.SlotName
import IndicatorCompiler.Proofs.Slottable

/-!
# Where names live

A layout gives every name in scope its place: a counter keeps its name, any other variable lives in
a slot.  All names of a block have their places as soon as the block is entered, also those that are
declared further down.  `Located` ties a layout to the open scopes of a walk.
-/

namespace IndicatorCompiler.Script

open List (lookup_cons mem_map mem_cons map_cons mem_append cons_append)

/-! ## Opening names -/

namespace InScope

variable {ρ σ : Type} {name : String} {Γ : InScope ρ}

theorem lookup_opening_self {st} (h : Γ.lookup name = some st) :
    (Γ.opening name).lookup name = some { st with opened := true } := by
  induction Γ with
  | nil => simp at h
  | cons e rest ih =>
    obtain ⟨x, e⟩ := e
    by_cases hx : x = name
    · subst hx
      simp only [List.lookup_cons_self, Option.some.injEq] at h
      simp [opening, h]
    · have hne : (name == x) = false := by simp [Ne.symm hx]
      simp only [lookup_cons, hne] at h
      simp only [opening, if_neg hx, lookup_cons, hne]
      exact ih h

theorem lookup_opening_ne {x} (hx : x ≠ name) (Γ : InScope ρ) :
    (Γ.opening name).lookup x = Γ.lookup x := by
  induction Γ with
  | nil => rfl
  | cons e rest ih =>
    obtain ⟨y, e⟩ := e
    simp only [opening]
    split
    · next hy =>
      have hne : (x == y) = false := by simp [hy, hx]
      simp [lookup_cons, hne]
    · simp only [lookup_cons, ih]

theorem opening_of_opened {r} (h : Γ.lookup name = some ⟨r, true⟩) : Γ.opening name = Γ := by
  induction Γ with
  | nil => rfl
  | cons e rest ih =>
    obtain ⟨x, e⟩ := e
    by_cases hx : x = name
    · subst hx
      simp only [List.lookup_cons_self, Option.some.injEq] at h
      simp [opening, h]
    · have hne : (name == x) = false := by simp [Ne.symm hx]
      simp only [lookup_cons, hne] at h
      simp [opening, hx, ih h]

@[simp] theorem roles_opening (name : String) (Γ : InScope ρ) :
    (Γ.opening name).roles = Γ.roles := by
  induction Γ with
  | nil => rfl
  | cons e rest ih =>
    obtain ⟨x, e⟩ := e
    simp only [opening]
    split
    · rfl
    · exact congrArg ((x, e.role) :: ·) ih

@[simp] theorem roles_append (Δ Γ : InScope ρ) : roles (Δ ++ Γ) = Δ.roles ++ Γ.roles :=
  List.map_append

@[simp] theorem roles_openingAll (names : List (String × VarKind)) (Γ : InScope ρ) :
    (Γ.openingAll names).roles = Γ.roles := by
  induction names generalizing Γ with
  | nil => rfl
  | cons x rest ih => exact (ih (Γ.opening x.1)).trans (roles_opening x.1 Γ)

@[simp] theorem openingAll_append (xs ys : List (String × VarKind)) (Γ : InScope ρ) :
    Γ.openingAll (xs ++ ys) = (Γ.openingAll xs).openingAll ys :=
  List.foldl_append

/-- A name in scope is open if it was or if its declaration is among those that run. -/
theorem lookup_openingAll {x st} (h : Γ.lookup x = some st) (names : List (String × VarKind)) :
    (Γ.openingAll names).lookup x =
      some { st with opened := st.opened || names.any (·.1 == x) } := by
  induction names generalizing Γ st with
  | nil => simpa [openingAll] using h
  | cons y rest ih =>
    by_cases hyx : y.1 = x
    · have hopened := ih (hyx ▸ lookup_opening_self (hyx ▸ h))
      simpa [openingAll, hyx] using hopened
    · have hkept := ih ((lookup_opening_ne (Ne.symm hyx) Γ).trans h)
      simpa [openingAll, beq_false_of_ne hyx] using hkept

theorem mapRole_opening (f : ρ → σ) (name : String) (Γ : InScope ρ) :
    (Γ.opening name).mapRole f = (Γ.mapRole f).opening name := by
  induction Γ with
  | nil => rfl
  | cons e rest ih =>
    obtain ⟨x, e⟩ := e
    simp only [opening, mapRole, map_cons]
    split
    · rfl
    · exact congrArg _ ih

theorem mapRole_openingAll (f : ρ → σ) (names : List (String × VarKind)) (Γ : InScope ρ) :
    (Γ.openingAll names).mapRole f = (Γ.mapRole f).openingAll names := by
  induction names generalizing Γ with
  | nil => rfl
  | cons x rest ih =>
    exact (ih (Γ.opening x.1)).trans (congrArg (openingAll rest) (mapRole_opening f x.1 Γ))

theorem lookup_mapRole (f : ρ → σ) (name : String) (Γ : InScope ρ) :
    (Γ.mapRole f).lookup name = (Γ.lookup name).map fun st => ⟨f st.role, st.opened⟩ := by
  induction Γ with
  | nil => rfl
  | cons e rest ih =>
    obtain ⟨x, e⟩ := e
    simp only [mapRole, map_cons, lookup_cons]
    split
    · rfl
    · exact ih

/-- Names of the front are opened in the front. -/
theorem opening_append {Δ} (h : name ∈ Δ.roles.map (·.1)) (Γ : InScope ρ) :
    opening name (Δ ++ Γ) = Δ.opening name ++ Γ := by
  induction Δ with
  | nil => simp [roles] at h
  | cons e rest ih =>
    obtain ⟨x, e⟩ := e
    simp only [cons_append, opening]
    split
    · rfl
    · next hx =>
      have hrest : name ∈ (roles rest).map (·.1) := by simpa [roles, Ne.symm hx] using h
      rw [ih hrest, cons_append]

theorem openingAll_append_left {names Δ} (h : ∀ x ∈ names, x.1 ∈ Δ.roles.map (·.1))
    (Γ : InScope ρ) : openingAll names (Δ ++ Γ) = Δ.openingAll names ++ Γ := by
  induction names generalizing Δ with
  | nil => rfl
  | cons x rest ih =>
    have hx : opening x.1 (Δ ++ Γ) = Δ.opening x.1 ++ Γ := opening_append (h x (by simp)) Γ
    have hrest : openingAll rest (Δ.opening x.1 ++ Γ) = (Δ.opening x.1).openingAll rest ++ Γ :=
      ih fun y hy => by simpa using h y (by simp [hy])
    simpa only [openingAll, List.foldl_cons, hx] using hrest

end InScope

/-! ## Places -/

/-- Where the value of a name lives. -/
inductive Place where
  | counter
  | slot (kind : VarKind) (renamed : String)
  deriving DecidableEq

namespace Place

/-- What a scope binds a name with this place to. -/
def binding : Place → Binding
  | counter => .loop
  | slot kind renamed => .slot renamed kind

/-- The role of a name with this place. -/
def role : Place → Role
  | counter => .counter
  | slot kind _ => .declared kind

/-- The slot, if it is one. -/
def slot? : Place → Option String
  | counter => none
  | slot _ renamed => some renamed

end Place

/-- Places of the names in scope. -/
abbrev Layout := InScope Place

namespace Layout

variable {x : String}

/-- All slots of a layout. -/
def slots (L : Layout) : List String := L.roles.filterMap (·.2.slot?)

/-- The places of a block that is walked in a scope. -/
def block (scope : Scope) (names : List (String × VarKind)) : Layout :=
  names.map fun (x, kind) => (x, ⟨.slot kind (scope.slotName x), false⟩)

/-- The places of counters. -/
def counters (names : List (String × VarKind)) : Layout :=
  names.map fun (x, _) => (x, ⟨.counter, false⟩)

@[simp] theorem slots_opening (name : String) (L : Layout) : slots (L.opening name) = L.slots := by
  simp [slots]

@[simp] theorem slots_openingAll (names : List (String × VarKind)) (L : Layout) :
    slots (L.openingAll names) = L.slots := by
  simp [slots]

@[simp] theorem slots_append (K L : Layout) : slots (K ++ L) = K.slots ++ L.slots := by simp [slots]

@[simp] theorem slots_block (scope : Scope) (names : List (String × VarKind)) :
    slots (block scope names) = names.map fun x => scope.slotName x.1 := by
  simp [slots, block, InScope.roles, List.filterMap_map, Function.comp_def, Place.slot?]

@[simp] theorem slots_counters (names : List (String × VarKind)) : slots (counters names) = [] := by
  simp [slots, counters, InScope.roles, List.filterMap_map, Function.comp_def, Place.slot?]

@[simp] theorem roles_block (scope : Scope) (names : List (String × VarKind)) :
    (block scope names).roles = names.map fun x => (x.1, .slot x.2 (scope.slotName x.1)) := by
  simp [block, InScope.roles]

@[simp] theorem roles_counters (names : List (String × VarKind)) :
    (counters names).roles = names.map fun x => (x.1, .counter) := by
  simp [counters, InScope.roles]

/-- A name of a block that is entered has its place there and is not open. -/
theorem lookup_block {scope names kind} (hnodup : (names.map (·.1)).Nodup) (hx : (x, kind) ∈ names)
    (L : Layout) :
    (block scope names ++ L).lookup x = some ⟨.slot kind (scope.slotName x), false⟩ := by
  induction names with
  | nil => simp at hx
  | cons y rest ih =>
    obtain ⟨y, k⟩ := y
    rw [map_cons, List.nodup_cons] at hnodup
    rcases mem_cons.mp hx with heq | hrest
    · cases heq
      simp [block]
    · have hne : (x == y) = false := by
        rw [beq_eq_false_iff_ne]
        rintro rfl
        exact hnodup.1 (List.mem_map_of_mem (f := (·.1)) hrest)
      simpa [block, lookup_cons, hne] using ih hnodup.2 hrest

theorem lookup_counters {names kind} (hx : (x, kind) ∈ names) (L : Layout) :
    (counters names ++ L).lookup x = some ⟨.counter, false⟩ := by
  induction names with
  | nil => simp at hx
  | cons y rest ih =>
    by_cases hxy : x = y.1
    · simp [counters, hxy]
    · have hne : (x == y.1) = false := by simp [hxy]
      have hrest : (x, kind) ∈ rest := by
        rcases mem_cons.mp hx with rfl | hx
        · exact absurd rfl hxy
        · exact hx
      simpa [counters, lookup_cons, hne] using ih hrest

/-- What is open behind closed names is open without them. -/
theorem lookup_of_closed {K L : Layout} (hK : ∀ e ∈ K, e.2.opened = false) {p}
    (h : (K ++ L).lookup x = some ⟨p, true⟩) : L.lookup x = some ⟨p, true⟩ := by
  induction K with
  | nil => exact h
  | cons e rest ih =>
    obtain ⟨y, st⟩ := e
    rw [cons_append, lookup_cons] at h
    split at h
    · have hst : st.opened = false := hK (y, st) (by simp)
      cases h
      simp at hst
    · exact ih (fun e he => hK e (by simp [he])) h

theorem closed_block (scope : Scope) (names : List (String × VarKind)) :
    ∀ e ∈ block scope names, e.2.opened = false := by
  intro e he
  obtain ⟨x, -, rfl⟩ := mem_map.mp he
  rfl

theorem closed_counters (names : List (String × VarKind)) :
    ∀ e ∈ counters names, e.2.opened = false := by
  intro e he
  obtain ⟨x, -, rfl⟩ := mem_map.mp he
  rfl

theorem mem_roles_of_lookup {ρ : Type} {Γ : InScope ρ} {st} (h : Γ.lookup x = some st) :
    (x, st.role) ∈ Γ.roles := by
  induction Γ with
  | nil => simp at h
  | cons e rest ih =>
    obtain ⟨y, e⟩ := e
    rw [lookup_cons] at h
    split at h
    · next heq =>
      cases h
      rw [beq_iff_eq.mp heq]
      simp [InScope.roles]
    · exact List.mem_cons_of_mem _ (ih h)

end Layout

/-! ## Layouts and open scopes -/

/-- The scopes bind no handles and no temporaries. -/
structure PlainScopes (s : Scopes) : Prop where
  temps : s.temps = []
  contextBound : s.contextBound = []
  bindings : ∀ scope ∈ s.stack, ∀ b ∈ scope.bindings, ∃ p : Place, b.2 = p.binding

/-- The layout says how the open scopes resolve every name that is open, and its slots are those of
scopes that have been entered, each for one name only. -/
structure Located (s : Scopes) (L : Layout) : Prop where
  plain : PlainScopes s
  bound : ∀ x p, L.lookup x = some ⟨p, true⟩ → Scopes.bindingIn? x s.stack = some p.binding
  proper : ∀ e ∈ L.roles, e.1 ≠ contextName ∧ e.1 ≠ s.rootName
  nodup : L.slots.Nodup
  numbered : ∀ r ∈ L.slots, ∃ (scope : Scope) (x : String),
    r = scope.slotName x ∧ scope.number ≤ s.entered.count scope.kind
  inner : s.inner.number ≤ s.entered.count s.inner.kind

/-- No name in scope lives in the innermost scope. -/
def FreshScope (s : Scopes) (L : Layout) : Prop := ∀ r ∈ L.slots, ∀ x, r ≠ s.inner.slotName x

/-- What a walk over a statement leaves of the scopes: it is back in the scope where it started, and
scopes that it has entered stay numbered. -/
structure SameScope (s t : Scopes) : Prop where
  rootName : t.rootName = s.rootName
  kind : t.inner.kind = s.inner.kind
  number : t.inner.number = s.inner.number
  outer : t.outer = s.outer
  entered : ∀ k, s.entered.count k ≤ t.entered.count k

namespace SameScope

theorem refl (s : Scopes) : SameScope s s := ⟨rfl, rfl, rfl, rfl, fun _ => Nat.le_refl _⟩

theorem trans {s t u} (h : SameScope s t) (k : SameScope t u) : SameScope s u where
  rootName := k.rootName.trans h.rootName
  kind := k.kind.trans h.kind
  number := k.number.trans h.number
  outer := k.outer.trans h.outer
  entered kind := Nat.le_trans (h.entered kind) (k.entered kind)

theorem slotName {s t} (h : SameScope s t) (x : String) :
    t.inner.slotName x = s.inner.slotName x := by
  simp only [Scope.slotName, h.kind, h.number]

theorem bind (s : Scopes) (x : String) (b : Binding) : SameScope s (s.bind x b) :=
  ⟨rfl, rfl, rfl, rfl, fun _ => Nat.le_refl _⟩

theorem addLoopVariable (s : Scopes) (x : String) : SameScope s (s.addLoopVariable x) :=
  ⟨rfl, rfl, rfl, rfl, fun _ => Nat.le_refl _⟩

end SameScope

namespace PlainScopes

variable {s : Scopes}

theorem bindingIn?_place (h : PlainScopes s) {x b} (hb : Scopes.bindingIn? x s.stack = some b) :
    ∃ p : Place, b = p.binding := by
  have hstack := h.bindings
  revert hb hstack
  generalize s.stack = stack
  intro hb hstack
  induction stack with
  | nil => simp [Scopes.bindingIn?] at hb
  | cons scope more ih =>
    rw [Scopes.bindingIn?, Option.or_eq_some_iff] at hb
    rcases hb with hb | ⟨-, hb⟩
    · rw [Scope.lookup?, List.lookup_eq_some_iff] at hb
      obtain ⟨front, back, hbindings, -⟩ := hb
      exact hstack scope (by simp) (x, b) (by simp [hbindings])
    · exact ih hb fun scope hscope => hstack scope (by simp [hscope])

/-- No name is bound to the context, and none is a temporary. -/
theorem resolve_ne (h : PlainScopes s) (x : String) :
    s.resolve x ≠ .contextBound ∧ s.resolve x ≠ .localTemp := by
  unfold Scopes.resolve
  split
  · simp
  · split
    · next b hb =>
      obtain ⟨p, rfl⟩ := h.bindingIn?_place hb
      cases p <;> simp [Place.binding, Binding.resolution]
    · simp only [h.temps, h.contextBound, List.not_mem_nil, if_false]
      split <;> simp

theorem bind (h : PlainScopes s) (x : String) (p : Place) : PlainScopes (s.bind x p.binding) where
  temps := h.temps
  contextBound := h.contextBound
  bindings := by
    intro scope hscope b hb
    rcases mem_cons.mp hscope with rfl | hscope
    · rcases mem_cons.mp hb with rfl | hb
      · exact ⟨p, rfl⟩
      · exact h.bindings s.inner (by simp [Scopes.stack]) b hb
    · exact h.bindings scope (List.mem_cons_of_mem _ hscope) b hb

theorem push (h : PlainScopes s) (kind : ScopeKind) : PlainScopes (s.push kind) where
  temps := h.temps
  contextBound := h.contextBound
  bindings := by
    intro scope hscope b hb
    rcases mem_cons.mp hscope with rfl | hscope
    · exact absurd hb List.not_mem_nil
    · exact h.bindings scope hscope b hb

end PlainScopes

namespace Located

variable {s : Scopes} {L : Layout} {x : String} {o : Bool}

theorem resolve (h : Located s L) {p : Place} (hx : L.lookup x = some ⟨p, true⟩) :
    s.resolve x = p.binding.resolution := by
  obtain ⟨hne, hroot⟩ := h.proper _ (Layout.mem_roles_of_lookup hx)
  simp [Scopes.resolve, hne, hroot, h.bound x p hx]

theorem bind (h : Located s L) {p} (hx : L.lookup x = some ⟨p, o⟩) :
    Located (s.bind x p.binding) (L.opening x) where
  plain := h.plain.bind x p
  bound := by
    intro y q hy
    by_cases hyx : y = x
    · subst hyx
      rw [InScope.lookup_opening_self hx] at hy
      cases hy
      simp [Scopes.bind, Scopes.stack, Scopes.bindingIn?, Scope.lookup?]
    · rw [InScope.lookup_opening_ne hyx] at hy
      have hne : (y == x) = false := by simp [hyx]
      have hb := h.bound y q hy
      simpa [Scopes.bind, Scopes.stack, Scopes.bindingIn?, Scope.lookup?, lookup_cons, hne] using hb
  proper := (InScope.roles_opening x L).symm ▸ h.proper
  nodup := (Layout.slots_opening x L).symm ▸ h.nodup
  numbered := (Layout.slots_opening x L).symm ▸ h.numbered
  inner := h.inner

theorem addLoopVariable (h : Located s L)
    (hx : L.lookup x = some ⟨.counter, o⟩) : Located (s.addLoopVariable x) (L.opening x) := by
  obtain ⟨plain, bound, proper, nodup, numbered, inner⟩ := h.bind hx
  exact ⟨⟨plain.temps, plain.contextBound, plain.bindings⟩, bound, proper, nodup, numbered, inner⟩

theorem addVariable (h : Located s L) {kind}
    (hx : L.lookup x = some ⟨.slot kind (s.inner.slotName x), o⟩) :
    (s.addVariable x kind).1 = s.inner.slotName x ∧ SameScope s (s.addVariable x kind).2 ∧
      Located (s.addVariable x kind).2 (L.opening x) := by
  rw [Scopes.addVariable, if_neg (h.plain.resolve_ne x).1]
  exact ⟨rfl, SameScope.bind s x _, h.bind hx⟩

theorem push (h : Located s L) (kind : ScopeKind) : Located (s.push kind) L where
  plain := h.plain.push kind
  bound x p hx := by
    simpa [Scopes.push, Scopes.stack, Scopes.bindingIn?, Scope.lookup?] using h.bound x p hx
  proper := h.proper
  nodup := h.nodup
  numbered r hr := by
    obtain ⟨scope, x, rfl, hle⟩ := h.numbered r hr
    exact ⟨scope, x, rfl, Nat.le_trans hle List.count_le_count_cons⟩
  inner := by simp [Scopes.push]

/-- A scope that is entered has a number of its own. -/
theorem fresh_push (h : Located s L) (kind : ScopeKind) : FreshScope (s.push kind) L := by
  intro r hr x heq
  obtain ⟨scope, y, rfl, hle⟩ := h.numbered r hr
  obtain ⟨hkind, hnumber, -⟩ := Scope.slotName_inj heq
  have hpushed : scope.number = s.entered.count scope.kind + 1 := by
    rw [hnumber, hkind]
    rfl
  omega

/-- A walk that has left a scope is back where it was before it entered it. -/
theorem pop {kind t K} (h : Located s L) (ht : Located t K) (hst : SameScope (s.push kind) t) :
    Located t.pop L ∧ SameScope s t.pop := by
  have hpop : t.pop = { t with inner := s.inner, outer := s.outer } := by
    rw [Scopes.pop, hst.outer]
    rfl
  have hcount (k : ScopeKind) : s.entered.count k ≤ t.entered.count k :=
    Nat.le_trans List.count_le_count_cons (hst.entered k)
  rw [hpop]
  refine ⟨?_, ⟨hst.rootName, rfl, rfl, rfl, hcount⟩⟩
  constructor
  case plain => exact ⟨ht.plain.temps, ht.plain.contextBound, h.plain.bindings⟩
  case bound => exact h.bound
  case proper =>
    intro e he
    exact hst.rootName.symm ▸ h.proper e he
  case nodup => exact h.nodup
  case numbered =>
    intro r hr
    obtain ⟨scope, x, rfl, hle⟩ := h.numbered r hr
    exact ⟨scope, x, rfl, Nat.le_trans hle (hcount _)⟩
  case inner => exact Nat.le_trans h.inner (hcount _)

/-- The names of a block get their places when it is entered. -/
theorem enterBlock (h : Located s L) (hfresh : FreshScope s L) {names : List (String × VarKind)}
    (hnames : properNames s.rootName names) : Located s (Layout.block s.inner names ++ L) := by
  simp only [properNames, Bool.and_eq_true, decide_eq_true_eq, List.all_eq_true] at hnames
  obtain ⟨hnodup, hproper⟩ := hnames
  constructor
  case plain => exact h.plain
  case bound =>
    intro x p hx
    exact h.bound x p (Layout.lookup_of_closed (Layout.closed_block _ _) hx)
  case proper =>
    intro e he
    rw [InScope.roles_append, Layout.roles_block, mem_append] at he
    rcases he with he | he
    · obtain ⟨x, hx, rfl⟩ := mem_map.mp he
      simpa using hproper x hx
    · exact h.proper e he
  case nodup =>
    rw [Layout.slots_append, Layout.slots_block, List.nodup_append]
    refine ⟨?_, h.nodup, ?_⟩
    · rw [List.nodup_iff_pairwise_ne, List.pairwise_map] at hnodup ⊢
      exact hnodup.imp fun hab heq => hab (Scope.slotName_inj heq).2.2
    · intro r hr r' hr' heq
      obtain ⟨x, -, rfl⟩ := mem_map.mp hr
      exact hfresh r' hr' x.1 heq.symm
  case numbered =>
    intro r hr
    rw [Layout.slots_append, Layout.slots_block, mem_append] at hr
    rcases hr with hr | hr
    · obtain ⟨x, -, rfl⟩ := mem_map.mp hr
      exact ⟨s.inner, x.1, rfl, h.inner⟩
    · exact h.numbered r hr
  case inner => exact h.inner

/-- The counters of a loop have their places when it is entered. -/
theorem enterLoop (h : Located s L) {names : List (String × VarKind)}
    (hnames : properNames s.rootName names) : Located s (Layout.counters names ++ L) := by
  simp only [properNames, Bool.and_eq_true, decide_eq_true_eq, List.all_eq_true] at hnames
  constructor
  case plain => exact h.plain
  case bound =>
    intro x p hx
    exact h.bound x p (Layout.lookup_of_closed (Layout.closed_counters _) hx)
  case proper =>
    intro e he
    rw [InScope.roles_append, Layout.roles_counters, mem_append] at he
    rcases he with he | he
    · obtain ⟨x, hx, rfl⟩ := mem_map.mp he
      simpa using hnames.2 x hx
    · exact h.proper e he
  case nodup => simpa using h.nodup
  case numbered => simpa using h.numbered
  case inner => exact h.inner

end Located

end IndicatorCompiler.Script
