import Mathlib.Data.Bool.Basic
import Mathlib.Data.List.Basic
import IndicatorCompiler.Proofs.LexicalLookup
import IndicatorCompiler.Proofs.SlotForms
import IndicatorCompiler.Proofs.Walkable

/-!
# Walks lead to slot forms

Every walk that succeeds follows the rules of slot forms, and a walk over a tree that is ready for
it fails only for what the source says: it assigns to the context, or to something that is no
destructuring.  Both are shown at once, by induction on the tree.
-/

namespace IndicatorCompiler.SlotForm

open Script
open List (forall_mem_cons map_cons forall_mem_map map_append map_map)
open Option (pure_def bind_eq_bind mem_def map_eq_some_iff bind_eq_some_iff any_map some.inj
  some.injEq)

variable {c : Option Demand} {n : Nat} {w : Walk} {ancestors : Ancestors} {e : Expr}
  {shape : Shape Operand} {ps : List Property} {position : Position}

/-! ## Steps -/

/-- A walk in a unit with this context parameter, in so many lists of statements. -/
structure Inside (d : Demand) (n : Nat) (w : Walk) : Prop where
  root : w.scopes.rootName = d.root
  depth : w.hoisted.length = n

/-- From this state the step leads to what is expected and stays inside the same lists.  If it fails
then the source is to blame, as far as something was asked of it. -/
def Walks {α : Type} (c : Option Demand) (n : Nat) (w : Walk) (x : Slotting α)
    (Q : α → Walk → Prop) : Prop :=
  match x w with
  | .ok (a, w') => Q a w' ∧ ∀ d, Inside d n w → Inside d n w'
  | .error e => ∀ d ∈ c, Inside d n w → e.cause.inSource d = true

section

variable {α β : Type} {x : Slotting α} {f : α → Slotting β} {Q : α → Walk → Prop}
  {R : β → Walk → Prop} {a : α}

theorem Walks.of_succeeds (h : Walks c n w x Q) {w'} (hs : Succeeds x w a w') : Q a w' := by
  rw [Walks, show x w = .ok (a, w') from hs] at h
  exact h.1

theorem walks_pure (h : Q a w) : Walks c n w (pure a) Q := ⟨h, fun _ => id⟩

theorem walks_fail {cause} (h : ∀ d ∈ c, Inside d n w → cause.inSource d = true) :
    Walks c n w (fail cause ancestors) Q := h

theorem Walks.bind (hx : Walks c n w x Q) (hf : ∀ a w', Q a w' → Walks c n w' (f a) R) :
    Walks c n w (x >>= f) R := by
  have hrun : (x >>= f) w = x w >>= fun p => f p.1 p.2 := rfl
  unfold Walks at hx ⊢
  rw [hrun]
  cases hx' : x w with
  | error e => rwa [hx'] at hx
  | ok p =>
    rw [hx'] at hx
    have hmore := hf p.1 p.2 hx.1
    rw [Walks] at hmore
    show match f p.1 p.2 with
      | .ok (b, w') => _
      | .error e => _
    cases hp : f p.1 p.2 with
    | error e =>
      rw [hp] at hmore
      exact fun d hd hw => hmore d hd (hx.2 d hw)
    | ok q =>
      rw [hp] at hmore
      exact ⟨hmore.1, fun d hw => hmore.2 d (hx.2 d hw)⟩

theorem Walks.imp {P : α → Walk → Prop} (h : Walks c n w x Q) (himp : ∀ a w', Q a w' → P a w') :
    Walks c n w x P := by
  unfold Walks at h ⊢
  cases hrun : x w with
  | error e => rwa [hrun] at h
  | ok p =>
    rw [hrun] at h
    exact ⟨himp p.1 p.2 h.1, h.2⟩

theorem walks_fromScopes {g : Scopes → α} (h : Walks c n w (f (g w.scopes)) R) :
    Walks c n w (fromScopes g >>= f) R := h

theorem walks_resolve {name} {f : Resolution → Slotting β}
    (h : Walks c n w (f (w.scopes.resolve name)) R) : Walks c n w (resolve name >>= f) R := h

theorem walks_known {w'} (hx : Succeeds x w a w') (hroot : w'.scopes.rootName = w.scopes.rootName)
    (hdepth : w'.hoisted.length = w.hoisted.length) (h : Walks c n w' (f a) R) :
    Walks c n w (x >>= f) R := by
  refine Walks.bind (Q := fun b w₁ => b = a ∧ w₁ = w') ?_ fun b w₁ hb => hb.1 ▸ hb.2 ▸ h
  rw [Walks, show x w = .ok (a, w') from hx]
  exact ⟨⟨rfl, rfl⟩, fun d hw => ⟨hroot.trans hw.root, hdepth.trans hw.depth⟩⟩

theorem walks_modifyScopes {g : Scopes → Scopes} (hg : ∀ s, (g s).rootName = s.rootName)
    {f : PUnit → Slotting β} (h : Walks c n { w with scopes := g w.scopes } (f ⟨⟩) R) :
    Walks c n w (modifyScopes g >>= f) R :=
  walks_known (walks_modifyScopes_iff.mpr rfl) (hg _) rfl h

theorem walks_apply (op : Scopes.Operation) {f : PUnit → Slotting β}
    (h : Walks c n { w with scopes := w.scopes.apply op } (f ⟨⟩) R) :
    Walks c n w (modifyScopes (·.apply op) >>= f) R :=
  walks_modifyScopes (fun s => Scopes.rootName_apply s op) h

theorem walks_name {g : Scopes → String × Scopes} (hg : ∀ s, (g s).2.rootName = s.rootName)
    {f : String → Slotting β}
    (h : Walks c n { w with scopes := (g w.scopes).2 } (f (g w.scopes).1) R) :
    Walks c n w (nameFromScopes g >>= f) R :=
  walks_known (walks_nameFromScopes_iff.mpr ⟨rfl, rfl⟩) (hg _) rfl h

/-- Inside a list there is a statement to hoist before. -/
theorem walks_hoist {stmt} {f : PUnit → Slotting β}
    (h : ∀ w', Hoists stmt w w' → Walks c (n + 1) w' (f ⟨⟩) R) :
    Walks c (n + 1) w (hoist stmt ancestors >>= f) R := by
  obtain ⟨scopes, hoisted⟩ := w
  cases hoisted with
  | nil => exact fun d _ hw => nomatch hw.depth
  | cons first rest =>
    have hhoists : Hoists stmt ⟨scopes, first :: rest⟩ ⟨scopes, (first ++ [stmt]) :: rest⟩ :=
      ⟨first, rest, rfl, rfl⟩
    exact walks_known (walks_hoist_iff.mpr hhoists) rfl rfl (h _ hhoists)

theorem walks_takeHoisted {f : List Stmt → Slotting β}
    (h : Walks c n w.taken (f (w.hoisted.headD [])) R) : Walks c n w (takeHoisted >>= f) R := by
  refine walks_known (walks_takeHoisted_iff.mpr ⟨rfl, rfl⟩) rfl ?_ h
  obtain ⟨scopes, hoisted⟩ := w
  cases hoisted <;> rfl

theorem walks_mapM {γ : Type} {source : α → γ} {form : List γ → List β → Form} {parts : List α}
    (nil : ∀ w, Formed (form [] []) w w)
    (cons : ∀ part ∈ parts, ∀ w, Walks c n w (f part) fun out w₁ => ∀ {rest outs w₂},
      Formed (form rest outs) w₁ w₂ → Formed (form (source part :: rest) (out :: outs)) w w₂) :
    Walks c n w (parts.mapM f) fun outs w' => Formed (form (parts.map source) outs) w w' := by
  induction parts generalizing w with
  | nil => exact walks_pure (nil w)
  | cons part parts ih =>
    obtain ⟨hpart, hparts⟩ := forall_mem_cons.mp cons
    rw [List.mapM_cons]
    exact (hpart w).bind fun _ _ hout => (ih hparts).bind fun _ _ houts => walks_pure (hout houts)

end

/-- Inside of a list, the step leads to the form that `form` says of its result. -/
abbrev Forms {α : Type} (c : Option Demand) (n : Nat) (w : Walk) (x : Slotting α)
    (form : α → Form) : Prop :=
  Walks c (n + 1) w x fun out w' => Formed (form out) w w'

/-! ## Operands of trees -/

theorem operands_eq_map (es : List Expr) : operands es = es.map operand := by
  induction es with
  | nil => rfl
  | cons e es ih => rw [operands, ih, map_cons]

/-- The argument that an expression is. -/
def argumentOf : Expr → CallArgument
  | .index base i => .indexed (operand base) (operand i)
  | e => .plain (operand e)

theorem callArguments_eq_map (es : List Expr) : callArguments es = es.map argumentOf := by
  induction es with
  | nil => rfl
  | cons e es ih => cases e <;> simp [callArguments, argumentOf, ih]

theorem argumentOf_operand (e : Expr) : (argumentOf e).operand = operand e := by cases e <;> rfl

/-- What is returned where an expression is. -/
def returnedOf : Expr → ReturnedOperand
  | .array items => .array (operands items)
  | e => .plain (operand e)

theorem returnedOf_value (e : Expr) : (returnedOf e).value = operand e := by cases e <;> rfl

theorem bodyVisits_expr (e : Expr) :
    bodyVisits (.expr e) = [visitReturn (some (returnedOf e))] := by
  cases e <;> rfl

theorem stmtVisits_ret (e : Expr) :
    stmtVisits (.ret (some e)) = .single (visitReturn (some (returnedOf e))) := by
  cases e <;> rfl

mutual
theorem operand_expr : (e : Expr) → (operand e).expr = e
  | .ident _ => rfl
  | .lit _ => rfl
  | .array items => congrArg Expr.array (operands_expr items)
  | .object ps => congrArg Expr.object (propertyOperands_source ps)
  | .function _ => rfl
  | .unary op arg => congrArg (Expr.unary op) (operand_expr arg)
  | .update op prefixed arg => congrArg (Expr.update op prefixed) (operand_expr arg)
  | .binary op left right => congrArg₂ (Expr.binary op) (operand_expr left) (operand_expr right)
  | .assign op target value => congrArg (Expr.assign op target) (operand_expr value)
  | .conditional test consequent alternate => by
    rw [operand, Operand.conditional, operand_expr test, operand_expr consequent,
      operand_expr alternate]
  | .call callee args => congrArg₂ Expr.call (operand_expr callee) (callArguments_expr args)
  | .new callee args => congrArg₂ Expr.new (operand_expr callee) (operands_expr args)
  | .member base x => congrArg (Expr.member · x) (operand_expr base)
  | .index base i => congrArg₂ Expr.index (operand_expr base) (operand_expr i)
  | .sequence items => congrArg Expr.sequence (operands_expr items)
  | .spread arg => congrArg Expr.spread (operand_expr arg)

theorem operands_expr : (es : List Expr) → (operands es).map (·.expr) = es
  | [] => rfl
  | e :: rest => congrArg₂ List.cons (operand_expr e) (operands_expr rest)

theorem callArguments_expr : (es : List Expr) → (callArguments es).map (·.operand.expr) = es
  | [] => rfl
  | e :: rest => by
    have hrest := callArguments_expr rest
    rw [callArguments_eq_map] at hrest ⊢
    rw [map_cons, map_cons, argumentOf_operand, operand_expr e, hrest]

theorem propertyOperands_source : (ps : List Property) →
    (propertyOperands ps).map (fun p => (⟨p.key, p.value.expr, p.shorthand⟩ : Property)) = ps
  | [] => rfl
  | ⟨key, value, shorthand⟩ :: rest =>
    congrArg₂ List.cons (congrArg (fun e => (⟨key, e, shorthand⟩ : Property)) (operand_expr value))
      (propertyOperands_source rest)
end

theorem operand?_map_expr (e : Option Expr) : (operand? e).map (·.expr) = e := by
  cases e with
  | none => rfl
  | some e => exact congrArg some (operand_expr e)

/-! ## Operands -/

/-- The walk over the operand leads to slot forms of its expression. -/
def Operand.Slots (c : Option Demand) (e : Operand) : Prop :=
  ∀ (n : Nat) (position : Position) (ancestors : Ancestors) (w : Walk),
    Forms c n w (e.slotForm position ancestors) (.expr position e.expr)

theorem Operand.Slots.at {e : Operand} (h : e.Slots c) :
    Forms c n w (e.slotForm position ancestors) (.expr position e.expr) :=
  h n position ancestors w

theorem Operand.Slots.value {e : Operand} (h : e.Slots c) :
    Forms c n w (e.value ancestors) (.expr .value e.expr) :=
  h.at

namespace Operand

variable {base i left right test consequent alternate arg callee : Operand} {items : List Operand}

theorem slots_ident (x : String) : (ident x).Slots c :=
  fun _ position _ w => walks_resolve (walks_pure (.ident position x w))

theorem slots_lit (value : Literal) : (lit value).Slots c :=
  fun _ position _ w => walks_pure (.lit position value w)

theorem slots_unary (op : UnaryOp) (h : arg.Slots c) : (unary op arg).Slots c :=
  fun _ _ _ _ => h.value.bind fun _ _ ha => walks_pure (.unary op ha)

theorem slots_spread (h : arg.Slots c) : (spread arg).Slots c :=
  fun _ _ _ _ => h.value.bind fun _ _ ha => walks_pure (.spread ha)

theorem slots_binary (op : BinaryOp) (hl : left.Slots c) (hr : right.Slots c) :
    (binary op left right).Slots c :=
  fun _ _ _ _ => hl.value.bind fun _ _ hl => hr.value.bind fun _ _ hr =>
    walks_pure (.binary op hl hr)

theorem slots_conditional (ht : test.Slots c) (hc : consequent.Slots c) (ha : alternate.Slots c) :
    (conditional test consequent alternate).Slots c :=
  fun _ _ _ _ => ht.value.bind fun _ _ ht => hc.value.bind fun _ _ hc => ha.value.bind
    fun _ _ ha => walks_pure (.conditional ht hc ha)

theorem walks_values (h : ∀ e ∈ items, e.Slots c) :
    Forms c n w (values items ancestors) (.exprs (fun _ => .value) (items.map (·.expr))) :=
  walks_mapM (.noExprs _) fun e he _ => (h e he).value.imp fun _ _ hout => .moreExprs hout

theorem slots_array (h : ∀ e ∈ items, e.Slots c) : (array items).Slots c :=
  fun _ _ _ _ => (walks_values h).bind fun _ _ houts => walks_pure (.array houts)

theorem slots_sequenceOf (h : ∀ e ∈ items, e.Slots c) : (sequenceOf items).Slots c :=
  fun _ _ _ _ => (walks_values h).bind fun _ _ houts => walks_pure (.sequence houts)

theorem slots_new (hc : callee.Slots c) (h : ∀ e ∈ items, e.Slots c) : (new callee items).Slots c :=
  fun _ _ _ _ => hc.at.bind fun _ _ hc => (walks_values h).bind fun _ _ houts =>
  walks_pure (.new hc houts)

/-! ## Members and history -/

theorem slots_member (h : base.Slots c) (x : String) : (member base x).Slots c :=
  fun _ _ _ _ => h.at.bind fun _ _ hb => walks_pure (.member x hb)

theorem walks_seriesTemp {value} : Walks c (n + 1) w (seriesTemp value ancestors)
    fun slot w' => slot = slotRef .lexical (seriesSlot w.scopes).1 ∧
      Hoists (initSlot "init" slot value) { w with scopes := (seriesSlot w.scopes).2 } w' :=
  walks_name (fun _ => rfl) (walks_name (fun s => Scopes.rootName_apply s (.addSeriesTemp _))
    (walks_hoist fun _ hhoist => walks_pure ⟨rfl, hhoist⟩))

theorem walks_historyOf {e offset : Expr} {w₀} (hbase : base.Slots c) (hstring : e.isString = false)
    (hposition : position ≠ .target) (hi : Formed (.expr .value e offset) w₀ w) :
    Walks c (n + 1) w (historyOf base offset ancestors)
      fun out w' => Formed (.expr position (.index base.expr e) out) w₀ w' := by
  have element (h : base.expr.ident?.isSome = true) : Walks c (n + 1) w (do
      return .index (← base.slotForm .memberObject ancestors) offset)
      fun out w' => Formed (.expr position (.index base.expr e) out) w₀ w' :=
    hbase.at.bind fun _ _ hb => walks_pure (.element (.inr h) hi hb)
  have series (hident : base.expr.ident? = none) : Walks c (n + 1) w (do
      let value ← base.value ancestors
      return readAt (← seriesTemp value ancestors) offset)
      fun out w' => Formed (.expr position (.index base.expr e) out) w₀ w' :=
    hbase.value.bind fun _ _ hvalue => walks_seriesTemp.bind fun _ _ hslot => by
      obtain ⟨rfl, hhoist⟩ := hslot
      exact walks_pure (.series hposition hident hstring hi hvalue hhoist)
  have rooted (hident : base.expr.ident? = none)
      (hrooted : isContextRooted w.scopes.rootName base.expr = true) : Walks c (n + 1) w (do
      return readAt (← base.slotForm .memberObject ancestors) offset)
      fun out w' => Formed (.expr position (.index base.expr e) out) w₀ w' :=
    hbase.at.bind fun _ _ hb => walks_pure (.rooted hposition hident hstring hi hrooted hb)
  unfold historyOf
  split
  · rename_i x hx
    refine walks_resolve ?_
    have hread (h : hasHistory (w.scopes.resolve x) = true) : Formed
      (.expr position (.index base.expr e)
          (readAt (nameAt x (w.scopes.resolve x) .handle) offset)) w₀ w :=
          hx ▸ .history hposition hi h
    split
    · rename_i renamed kind hslot
      rw [hslot] at hread
      exact walks_pure (hread rfl)
    · rename_i hbound
      rw [hbound] at hread
      exact walks_pure (hread rfl)
    · exact element (by rw [hx]; rfl)
  · rename_i hne
    have hident : base.expr.ident? = none := by
      cases hexpr : base.expr with
      | ident x => exact absurd hexpr (hne x)
      | _ => rfl
    refine walks_fromScopes ?_
    split
    · exact rooted hident ‹_›
    · exact series hident

theorem slots_index (hbase : base.Slots c) (hi : i.Slots c) : (index base i).Slots c := by
  intro n position ancestors w
  simp only [index]
  split
  · exact hbase.at.bind fun _ _ hb => walks_pure (.key ‹_› hb)
  · rename_i hstring
    refine hi.value.bind fun _ _ hoffset => ?_
    split
    · exact hbase.at.bind fun _ _ hb => walks_pure (.element (.inl ‹_›) hoffset hb)
    · exact walks_historyOf hbase (Bool.eq_false_iff.mpr hstring) ‹_› hoffset

/-! ## Objects -/

/-- The walk over the property leads to slot forms. -/
def PropertyOperand.Slots (c : Option Demand) (p : PropertyOperand) : Prop :=
  p.value.Slots c ∧
    match p.computed with
    | none => (∃ x, p.key = .name x) ∨ ∃ x, p.key = .str x
    | some key => key.Slots c ∧ p.key = .computed key.expr

theorem slots_object {properties : List PropertyOperand} (h : ∀ p ∈ properties, p.Slots c) :
    (object properties).Slots c := by
  refine fun _ _ _ _ => (walks_mapM .noProperties fun p hp w => ?_).bind
    fun _ _ houts => walks_pure (.object houts)
  obtain ⟨hvalue, hkey⟩ := h p hp
  unfold PropertyOperand.slotForm
  split
  · rename_i hnone
    rw [hnone] at hkey
    have hsame : Formed (.key p.key p.key) w w := by
      rcases hkey with ⟨x, hx⟩ | ⟨x, hx⟩
      · exact hx ▸ .keyName x w
      · exact hx ▸ .keyStr x w
    rw [pure_bind]
    exact hvalue.value.bind fun _ _ hv => walks_pure (.moreProperties hsame hv)
  · rename_i key hsome
    rw [hsome] at hkey
    refine hkey.1.value.bind fun _ _ hk => ?_
    rw [pure_bind, hkey.2]
    exact hvalue.value.bind fun _ _ hv => walks_pure (.moreProperties (.keyComputed hk) hv)

end Operand

/-! ## Calls -/

theorem walks_scopedId {β : Type} {id} {f : Expr → Slotting β} {R : β → Walk → Prop}
    (h : Walks c n w (f (identity w.scopes id)) R) : Walks c n w (scopedId id >>= f) R := by
  refine walks_known (show Succeeds (scopedId id) w (identity w.scopes id) w from ?_) rfl rfl h
  unfold scopedId identity
  rw [walks_fromScopes_bind_iff]
  split <;> exact succeeds_pure_iff.mpr ⟨rfl, rfl⟩

theorem argumentPosition_eq_value (h : ∀ x, e ≠ .ident x) : argumentPosition e = .value := by
  cases e with
  | ident x => exact absurd rfl (h x)
  | _ => rfl

/-- The walk over the argument leads to slot forms, and over its index if it has one. -/
structure CallArgument.Slots (c : Option Demand) (arg : CallArgument) : Prop where
  operand : arg.operand.Slots c
  index : ∀ i ∈ arg.index?, i.Slots c ∧ ∀ base e, arg.operand.expr = .index base e → e = i.expr

theorem CallArgument.slots_plain {e} (h : e.Slots c) : (CallArgument.plain e).Slots c := ⟨h, nofun⟩

section

variable {arg : CallArgument} {callee : Operand} {args : List CallArgument}

theorem walks_captureSource (h : arg.Slots c) : Walks c (n + 1) w (captureSource arg ancestors)
    fun out w' => Formed (.source arg.operand.expr out.1 out.2) w w' := by
  have value (hne : ∀ x, arg.operand.expr ≠ .ident x) : Walks c (n + 1) w (do
      return (← arg.operand.value ancestors, .undefined))
      fun out w' => Formed (.source arg.operand.expr out.1 out.2) w w' :=
    h.operand.value.bind fun _ _ hs => walks_pure (.sourceNow (argumentPosition_eq_value hne ▸ hs))
  unfold captureSource
  split
  · rename_i x hx
    have hposition : argumentPosition arg.operand.expr = .handle := by rw [hx]; rfl
    exact h.operand.at.bind fun _ _ hs => walks_pure (.sourceNow (hposition ▸ hs))
  · rename_i x i offset hexpr hindex
    obtain ⟨hoffset, hi⟩ := h.index offset hindex
    refine walks_resolve ?_
    split
    · refine hoffset.value.bind fun _ _ hl => (Operand.slots_ident x).at.bind fun _ _ hs =>
        walks_pure ?_
      rw [hexpr, hi _ _ hexpr]
      exact .sourceBack hl hs
    · exact value (by simp [hexpr])
  · exact value ‹_›

theorem walks_libraryArgument {library : String} (h : arg.Slots c) :
    Walks c (n + 1) w (libraryArgument library arg ancestors) fun out w₁ => ∀ {es outs w₂},
      Formed (.captures library es outs) w₁ w₂ →
      Formed (.captures library (arg.operand.expr :: es) (out :: outs)) w w₂ := by
  unfold libraryArgument
  split
  · rename_i hseries
    exact (walks_captureSource h).bind fun ⟨_, _⟩ _ hsource => walks_name (fun _ => rfl)
      (walks_apply (.addTemp _) (walks_scopedId (walks_hoist fun _ hhoist =>
        walks_pure (.capture hseries hsource hhoist))))
  · rename_i hseries
    exact h.operand.value.imp fun _ _ hout => .captureValue (Bool.eq_false_iff.mpr hseries) hout

theorem walks_otherCall (hcallee : callee.Slots c) (hargs : ∀ arg ∈ args, arg.Slots c)
    (huser : callee.expr.ident?.all (isUserCall w.scopes · = false)) :
    Forms c n w (otherCall callee args ancestors)
    (.expr position (Operand.call callee args).expr) := by
  refine walks_fromScopes ?_
  split
  · rename_i library hlibrary
    exact hcallee.at.bind fun _ _ hf => (walks_mapM (.noCaptures library) fun arg harg _ =>
      walks_libraryArgument (hargs arg harg)).bind fun _ _ houts => walks_name (fun _ => rfl)
        (walks_scopedId (walks_pure (.libraryCall hlibrary hf houts)))
  · rename_i hlibrary
    refine hcallee.at.bind fun _ _ hf => (Operand.walks_values (forall_mem_map.mpr fun arg harg =>
      (hargs arg harg).operand)).bind fun _ _ hvalues => walks_pure ?_
    rw [map_map] at hvalues
    exact .call huser hlibrary hf hvalues

theorem Operand.slots_call (hcallee : callee.Slots c) (hargs : ∀ arg ∈ args, arg.Slots c) :
    (call callee args).Slots c := by
  intro n position ancestors w
  have arguments (here : Ancestors) : Walks c (n + 1) w
    ((args.map (·.operand)).mapM (userArgument · here))
      fun outs w' => Formed (.exprs argumentPosition ((args.map (·.operand)).map (·.expr)) outs) w
      w' := by
    refine walks_mapM (.noExprs _) (forall_mem_map.mpr fun arg harg w => ?_)
    refine Walks.imp (Q := fun out w' => Formed (.expr (argumentPosition arg.operand.expr)
      arg.operand.expr out) w w') ?_ fun _ _ hout => .moreExprs hout
    unfold userArgument
    split
    · rename_i x hx
      have hposition : argumentPosition arg.operand.expr = .handle := by rw [hx]; rfl
      exact hposition ▸ (hargs arg harg).operand.at
    · rename_i hne
      exact argumentPosition_eq_value hne ▸ (hargs arg harg).operand.value
  have user {x : String} (hx : callee.expr = .ident x) (huser : isUserCall w.scopes x = true)
      {here : Ancestors} : Forms c n w (userCall x (args.map (·.operand)) here)
      (.expr position (call callee args).expr) := by
    refine (arguments here).bind fun _ _ houts =>
      walks_name (fun _ => rfl) (walks_scopedId (walks_pure ?_))
    show Formed (.expr position (.call callee.expr (args.map (·.operand.expr))) _) _ _
    rw [map_map] at houts
    rw [hx]
    exact .userCall huser houts
  simp only [call] at user ⊢
  split
  · rename_i x hx
    refine walks_fromScopes ?_
    split
    · exact user hx ‹_›
    · rename_i huser
      exact walks_otherCall hcallee hargs (by simp [hx, Expr.ident?, huser])
  · rename_i hne
    refine walks_otherCall hcallee hargs ?_
    cases hexpr : callee.expr with
    | ident x => exact absurd hexpr (hne x)
    | _ => rfl

end

/-! ## Assignments -/

section

variable {value : Operand}

theorem walks_assignName (op : AssignOp) (x : String) (hvalue : value.Slots c) :
    Forms c n w (assignName op x value ancestors)
    (.expr position (.assign op (.ident x) value.expr)) := by
  refine walks_resolve ?_
  split
  · rename_i hx
    exact hvalue.value.bind fun _ _ hv => walks_pure (.setSlot op hx hv)
  · exact walks_fail fun _ _ _ => rfl
  · rename_i hslot _
    exact hvalue.value.bind fun _ _ hv => walks_pure (.assign op x hslot hv)

/-- The assignment that a part of a destructuring stands for. -/
def partExpr (part : String × Operand) : Expr := .assign .assign (.ident part.1) part.2.expr

/-- However a whole is reached, the parts of a destructuring of it are assigned. -/
def PartsSlot (c : Option Demand) (target : Expr) (shape : Shape Operand) : Prop :=
  ∀ ⦃whole : Operand⦄, whole.Slots c → ∀ ⦃parts : List (String × Operand)⦄,
    shape.leaves? operandAccess whole = some parts →
    (∀ part ∈ parts, part.2.Slots c) ∧ Parts whole.expr target (parts.map partExpr)

/-- What an assignment writes to leads to slot forms; something is asked only of what can be
assigned to. -/
def Target.Slots (c : Option Demand) (op : AssignOp) (target : Expr) : Target → Prop
  | .name x => target = .ident x
  | .member access => access.Slots c ∧ isAccess target = true ∧ access.expr = target
  | .parts shape? => target.ident? = none ∧ (∀ d ∈ c, op = .assign) ∧
    ∀ shape ∈ shape?, PartsSlot c target shape
  | .invalid => ∀ d, d ∉ c

theorem walks_destructure {shape : Shape Operand} {target} (hident : target.ident? = none)
    (hshape : PartsSlot c target shape) (hvalue : value.Slots c) :
    Forms c n w (destructure shape value ancestors)
    (.expr position (.assign .assign target value.expr)) := by
  refine hvalue.value.bind fun _ _ hv => walks_name (fun _ => rfl) ?_
  refine walks_apply (.addTemp _) (walks_hoist fun _ hhoist => ?_)
  split
  · exact walks_fail fun _ _ _ => rfl
  · rename_i leaves hleaves
    obtain ⟨hslots, hparts⟩ := hshape (Operand.slots_ident _) hleaves
    exact (walks_mapM (.noExprs fun _ => .value) fun part hpart _ =>
        (walks_assignName .assign part.1 (hslots part hpart)).imp
          fun _ _ hout => .moreExprs hout).bind
      fun _ _ houts => walks_pure (.destructure hv hhoist hident hparts houts)

theorem Operand.slots_assign (op : AssignOp) {target : Expr} {written}
    (hwritten : written.Slots c op target) (hvalue : value.Slots c) :
    (assign op target written value).Slots c := by
  intro n position ancestors w
  simp only [assign]
  split
  · obtain rfl : target = _ := hwritten
    exact walks_assignName op _ hvalue
  · obtain ⟨haccess, hform, rfl⟩ := hwritten
    exact haccess.at.bind fun _ _ ht => hvalue.value.bind fun _ _ hv =>
      walks_pure (.assignMember op hform ht hv)
  · obtain ⟨hident, hop, hshape⟩ := hwritten
    split
    · exact walks_fail fun d hd _ => absurd (hop d hd) ‹_›
    · rename_i hassign
      obtain rfl : op = .assign := by simpa using hassign
      split
      · exact walks_destructure hident (hshape _ rfl) hvalue
      · exact walks_fail fun _ _ _ => rfl
  · exact walks_fail fun d hd _ => absurd hd (hwritten d)

theorem Operand.slots_update (op : UpdateOp) (prefixed : Bool) {arg : Operand} (h : arg.Slots c) :
    (update op prefixed arg).Slots c := by
  intro n position ancestors w
  have plain : Forms c n w (do
      return .update op prefixed (← arg.slotForm .target ("Update" :: ancestors)))
        (.expr position (update op prefixed arg).expr) :=
    h.at.bind fun _ _ ht => walks_pure (.update op prefixed ht)
  have slot {x renamed : String} {kind : VarKind} (hx : arg.expr = .ident x)
      (hslot : w.scopes.resolve x = .slot renamed kind) :
      Formed (.expr position (update op prefixed arg).expr (contextCall "set" [slotRef kind renamed,
        .binary (updateArithmetic op) (readNow (slotRef kind renamed)) (.nat 1)])) w w := by
    rw [update, hx]
    exact .updateSlot op prefixed hslot
  simp only [update] at plain slot ⊢
  split
  · rename_i x hx
    refine walks_resolve ?_
    split
    · exact walks_pure (slot hx ‹_›)
    · exact plain
  · exact plain

end

/-! ## Statements -/

section

variable {visits body : List Visit} {stmts : List Stmt}

theorem walks_value? {e : Option Operand} (h : ∀ operand ∈ e, operand.Slots c) :
    Forms c n w (value? e ancestors) (.expr? (e.map (·.expr))) := by
  cases e with
  | none => exact walks_pure (.noExpr w)
  | some e => exact (h e rfl).value.bind fun _ _ hv => walks_pure (.someExpr hv)

/-- The visit leads to what the statement becomes. -/
def Visit.Slots (c : Option Demand) (visit : Visit) (stmt : Stmt) : Prop :=
  ∀ (n : Nat) (ancestors : Ancestors) (w : Walk),
    Forms c n w (visit ancestors) (.stmt stmt)

/-- The visits lead to what the statements become. -/
def VisitsSlot (c : Option Demand) (visits : List Visit) (stmts : List Stmt) : Prop :=
  ∀ (n : Nat) (ancestors : Ancestors) (w : Walk),
    Forms c n w (walkAll ancestors visits) (.stmts stmts)

theorem visitsSlot_nil : VisitsSlot c [] [] := fun _ _ w => walks_pure (.noStmts w)

theorem VisitsSlot.cons {visit stmt} (h : visit.Slots c stmt) (hrest : VisitsSlot c visits stmts) :
    VisitsSlot c (visit :: visits) (stmt :: stmts) := by
  intro n ancestors w
  refine (h _ _ _).bind fun _ _ hstmt => walks_takeHoisted ?_
  exact (hrest _ _ _).bind fun _ _ hmore => walks_pure (.moreStmts hstmt hmore)

/-- A list of statements is one list more while it is walked. -/
theorem walks_sequence (h : VisitsSlot c visits stmts) :
    Walks c n w (sequence visits ancestors) fun out w' => Formed (.block stmts out) w w' := by
  have hopen {d : Demand} (hw : Inside d n w) : Inside d (n + 1)
    { w with hoisted := [] :: w.hoisted } :=
    ⟨hw.root, congrArg (· + 1) hw.depth⟩
  have hlist := h n ancestors { w with hoisted := [] :: w.hoisted }
  have hwalk : sequence visits ancestors w = (do
      let walked ← walkAll ancestors visits { w with hoisted := [] :: w.hoisted }
      .ok (walked.1, { walked.2 with hoisted := walked.2.hoisted.tail })) := rfl
  unfold Forms Walks at hlist
  unfold Walks
  rw [hwalk]
  cases hrun : walkAll ancestors visits { w with hoisted := [] :: w.hoisted } with
  | error e =>
    rw [hrun] at hlist
    exact fun d hd hw => hlist d hd (hopen hw)
  | ok p =>
    rw [hrun] at hlist
    refine ⟨.block hlist.1, fun d hw => ?_⟩
    obtain ⟨hroot, hdepth⟩ := hlist.2 d (hopen hw)
    exact ⟨hroot, by simp [hdepth]⟩

theorem walks_inScope (h : VisitsSlot c visits stmts) {kind} :
    Walks c n w (inScope kind visits ancestors) fun out w' => Formed (.scope kind stmts out) w w' :=
  walks_apply (.push kind) ((walks_sequence h).bind fun _ _ hout => walks_apply .pop
    (walks_pure (.scope hout)))

section

variable {β : Type} {names : List String} {f : PUnit → Slotting β} {R : β → Walk → Prop}

theorem walks_foldScopes {g : Scopes → String → Scopes} (hg : ∀ s x, (g s x).rootName = s.rootName)
    (h : Walks c n { w with scopes := names.foldl g w.scopes } (f ⟨⟩) R) :
    Walks c n w (modifyScopes (names.foldl g) >>= f) R := by
  have hfold (s : Scopes) : (names.foldl g s).rootName = s.rootName :=
    names.foldlRecOn (motive := fun t => t.rootName = s.rootName) g rfl fun t ht x _ =>
    (hg t x).trans ht
  exact walks_modifyScopes hfold h

theorem walks_bindToContext
    (h : Walks c n { w with scopes := names.foldl Scopes.addContextBound w.scopes } (f ⟨⟩) R) :
    Walks c n w (bindToContext names >>= f) R :=
  walks_foldScopes (fun _ _ => rfl) h

theorem walks_bindLoop
    (h : Walks c n { w with scopes := names.foldl Scopes.addLoopVariable w.scopes } (f ⟨⟩) R) :
    Walks c n w (bindLoop names >>= f) R :=
  walks_foldScopes (fun _ _ => rfl) h

end

/-- The default of the parameter leads to slot forms, if it has one. -/
def ParamOperand.Slots (c : Option Demand) (param : ParamOperand) : Prop :=
  match param.default? with
  | none => ∀ target value, param.pattern ≠ .withDefault target value
  | some (target, value) => param.pattern = .withDefault target value.expr ∧ value.Slots c

/-- The walk over the parts of a function leads to slot forms of it. -/
structure FunctionParts.Slots (c : Option Demand) (parts : FunctionParts) (f : Function) :
    Prop where
  name : parts.name = f.name
  params : (∀ p ∈ parts.params, p.Slots c) ∧ parts.params.map (·.pattern) = f.params
  body : VisitsSlot c parts.body (bodyStmts f.body)
  arrow : parts.arrow = f.arrow

theorem walks_function {parts : FunctionParts} {f} (h : parts.Slots c f) {frame} :
    Forms c n w (parts.slotForm frame ancestors) (.function frame f) := by
  obtain ⟨name, params, body, arrow⟩ := f
  obtain ⟨rfl, ⟨hparams, rfl⟩, hbody, rfl⟩ := h
  refine walks_apply (.enterFunction frame) ?_
  refine (walks_mapM .noParams fun p hp w => ?_).bind fun _ _ houts =>
    (walks_sequence hbody).bind fun _ _ hstmts =>
      walks_apply .exitFunction (walks_pure (.functionParts houts hstmts))
  have hparam := hparams p hp
  unfold ParamOperand.Slots at hparam
  unfold ParamOperand.slotForm
  split
  · rename_i hnone
    rw [hnone] at hparam
    rw [pure_bind]
    exact walks_bindToContext (walks_pure (.plainParam hparam))
  · rename_i target value hsome
    rw [hsome] at hparam
    refine hparam.2.value.bind fun _ _ hv => ?_
    rw [pure_bind, hparam.1]
    exact walks_bindToContext (walks_pure fun {_ _ _} hrest => .defaultParam hv hrest)

/-- What is returned leads to slot forms, and its elements if it is an array. -/
structure ReturnedOperand.Slots (c : Option Demand) (returned : ReturnedOperand) : Prop where
  value : returned.value.Slots c
  elements : ∀ es ∈ returned.elements?, (∀ e ∈ es, e.Slots c) ∧
    returned.value.expr = .array (es.map (·.expr))

theorem slots_visitReturn {returned : ReturnedOperand} (h : returned.Slots c) :
    Visit.Slots c (visitReturn (some returned)) (.ret (some returned.value.expr)) := by
  refine fun n ancestors w => walks_fromScopes ?_
  split
  · rename_i huser
    refine Walks.bind (Q :=
      fun e w' => Formed (.stmt (.ret (some returned.value.expr)) [.ret (some e)]) w w')
      ?_ fun _ _ hret => walks_pure hret
    unfold userReturn
    split
    · rename_i elements helements
      obtain ⟨hslots, hexpr⟩ := h.elements elements helements
      rw [hexpr]
      exact (Operand.walks_values hslots).bind fun _ _ houts =>
        walks_pure (.ret (.someExpr (.array houts)))
    · exact h.value.value.bind fun _ _ hv => walks_pure (.retRounded huser hv)
  · exact h.value.value.bind fun _ _ hv => walks_pure (.ret (.someExpr hv))

/-! ## Declarations -/

/-- The binding as it stands in the source. -/
def DeclaratorOperand.source (decl : DeclaratorOperand) : Declarator :=
  ⟨decl.id, decl.init.map (·.expr)⟩

/-- The binding meets what is asked of it, and the value that it starts with leads to slot forms. -/
structure DeclaratorOperand.Slots (c : Option Demand) (loop : Bool) (decl : DeclaratorOperand) :
    Prop where
  meets : ∀ d ∈ c, (!d.declarations || d.meets loop decl.id (decl.init.map (·.expr))) = true
  value : ∀ init ∈ decl.init, init.Slots c

theorem addVariable_eq_self_iff (s : Scopes) (x : String) (kind : VarKind) :
    (s.addVariable x kind).1 = x ↔ s.resolve x = .contextBound := by
  unfold Scopes.addVariable
  split
  · rename_i hbound
    simp [hbound]
  · rename_i hbound
    simp [hbound, s.inner.slotName_ne x]

theorem walks_declareName {kind x init} (h : ∀ e ∈ init, e.Slots c) :
    Forms c n w (declareName kind x init ancestors)
    (.declarator kind ⟨.ident x, init.map (·.expr)⟩) := by
  refine (walks_value? h).bind fun _ w₁ hvalue => walks_resolve ?_
  split
  · rename_i htemp
    exact walks_pure (.plain kind hvalue (.inl htemp))
  · refine walks_name (fun s => Scopes.rootName_apply s (.addVariable x kind)) ?_
    split
    · rename_i hsame
      have hbound := (addVariable_eq_self_iff ..).mp hsame
      have hscopes : (w₁.scopes.addVariable x kind).2 = w₁.scopes := by
        rw [Scopes.addVariable, if_pos hbound]
      rw [hscopes]
      exact walks_pure (.plain kind hvalue (.inr hbound))
    · rename_i hother
      exact walks_pure (.slot kind hvalue (mt (addVariable_eq_self_iff ..).mpr hother))

theorem walks_declare {kind decl} (h : decl.Slots c false) :
    Forms c n w (declare kind decl ancestors) (.declarator kind decl.source) := by
  refine walks_fromScopes ?_
  split
  · rename_i hoff
    exact walks_bindToContext ((walks_value? h.value).bind fun _ _ hv => walks_pure
      (.takenOff kind (by simpa [isTakenOff, any_map] using hoff) hv))
  · rename_i hoff
    split
    · rename_i x hid
      rw [DeclaratorOperand.source, hid]
      exact walks_declareName h.value
    · rename_i hname
      refine walks_fail fun d hd hw => ?_
      have hident : decl.id.isIdent = false := by
        cases hid : decl.id with
        | ident x => exact absurd hid (hname x)
        | _ => rfl
      have hrooted : decl.init.any (fun init => isContextRooted d.root init.expr) = false := by
        rw [← hw.root]
        exact Bool.eq_false_iff.mpr hoff
      simpa [Demand.meets, hident, any_map, Function.comp_def, hrooted, Cause.inSource]
        using h.meets d hd

theorem slots_visitVar (kind : VarKind) {decls : List DeclaratorOperand}
    (h : ∀ d ∈ decls, d.Slots c false) :
    Visit.Slots c (visitVar kind decls) (.var kind (decls.map (·.source))) :=
  fun _ _ _ => (walks_mapM (.noDeclarators kind) fun d hd _ => (walks_declare (h d hd)).imp
    fun _ _ hout => .moreDeclarators hout).imp fun _ _ houts => .var houts

/-! ## Control flow -/

variable {test right : Operand} {stmt : Stmt}

theorem slots_visitIf (htest : test.Slots c) (hbody : VisitsSlot c body (asList stmt)) :
    Visit.Slots c (visitIf test body none) (.ifElse test.expr stmt none) :=
  fun _ _ _ => htest.value.bind fun _ _ ht => (walks_inScope hbody).bind fun _ _ hc =>
    walks_pure (.ifThen ht hc)

theorem slots_visitIf_else (htest : test.Slots c) (hbody : VisitsSlot c body (asList stmt))
    {other : Stmt} (hother : VisitsSlot c visits (asList other)) :
    Visit.Slots c (visitIf test body (some visits)) (.ifElse test.expr stmt (some other)) :=
  fun _ _ _ => htest.value.bind fun _ _ ht => (walks_inScope hbody).bind fun _ _ hc =>
    (walks_inScope hother).bind fun _ _ ha => walks_pure (.ifElse ht hc ha)

theorem slots_visitWhile (htest : test.Slots c) (hbody : VisitsSlot c body (asList stmt)) :
    Visit.Slots c (visitWhile test body) (.whileLoop test.expr stmt) :=
  fun _ _ _ => htest.value.bind fun _ _ ht => (walks_inScope hbody).bind fun _ _ hb =>
    walks_pure (.whileLoop ht hb)

theorem slots_visitForEach (each : ForEachKind) (kind : Option VarKind) (pattern : Pattern)
    (hright : right.Slots c) (hbody : VisitsSlot c body (asList stmt)) :
    Visit.Slots c (visitForEach each kind pattern right body)
    (.forEach each kind pattern right.expr stmt) :=
  fun _ _ _ => hright.value.bind fun _ _ hr => walks_apply (.push .forLoop) (walks_bindLoop
    ((walks_sequence hbody).bind fun _ _ hb => walks_apply .pop
      (walks_pure (.forEach each kind pattern hr hb))))

/-- The start of the loop as it stands in the source. -/
def InitOperand.source : InitOperand → ForInit
  | .declare kind decls => .declare kind (decls.map (·.source))
  | .expr value => .expr value.expr

/-- What the loop starts with leads to slot forms. -/
def InitOperand.Slots (c : Option Demand) : InitOperand → Prop
  | .declare _ decls => ∀ d ∈ decls, d.Slots c true
  | .expr value => value.Slots c

theorem walks_init {init : InitOperand} (h : init.Slots c) :
    Walks c (n + 1) w (init.slotForm ancestors)
    fun out w' => Formed (.init? (some init.source) (some out)) w w' := by
  cases init with
  | declare kind decls =>
    exact (walks_mapM .noBindings fun d hd _ => (walks_value? (h d hd).value).bind fun _ _ hv =>
      walks_bindLoop (walks_pure (.moreBindings hv))).bind fun _ _ houts =>
        walks_pure (.declareInit kind houts)
  | expr value => exact (Operand.Slots.value h).bind fun _ _ hv => walks_pure (.exprInit hv)

theorem slots_visitFor {init : Option InitOperand} {test update} (hinit : ∀ i ∈ init, i.Slots c)
    (htest : ∀ e ∈ test, e.Slots c) (hupdate : ∀ e ∈ update, e.Slots c)
    (hbody : VisitsSlot c body (asList stmt)) :
    Visit.Slots c (visitFor init test update body)
      (.forLoop (init.map (·.source)) (test.map (·.expr)) (update.map (·.expr)) stmt) := by
  refine fun n ancestors w => walks_apply (.push .forLoop) ?_
  have loop {i : Option ForInit} {w₁ : Walk}
      (hi : Formed (.init? (init.map (·.source)) i)
        { w with scopes := w.scopes.push .forLoop } w₁) :
      Walks c (n + 1) w₁ (do
        let t ← value? test ("For" :: ancestors)
        let u ← value? update ("For" :: ancestors)
        let b ← sequence body ("For" :: ancestors)
        modifyScopes (·.pop)
        return [.forLoop i t u (.block b)])
        fun out w' => Formed (.stmt (.forLoop (init.map (·.source)) (test.map (·.expr))
          (update.map (·.expr)) stmt) out) w w' := by
    refine (walks_value? htest).bind fun _ _ ht => ?_
    refine (walks_value? hupdate).bind fun _ _ hu => ?_
    refine (walks_sequence hbody).bind fun _ _ hb => ?_
    exact walks_apply .pop (walks_pure (.forLoop hi ht hu hb))
  cases init with
  | none => exact loop (.noInit _)
  | some init => exact (walks_init (hinit init rfl)).bind fun _ _ hi => loop hi

/-- The visits of the statement lead to slot forms, as a statement of a list and as a body. -/
structure StmtVisits.Slots (c : Option Demand) (visits : StmtVisits) (stmt : Stmt) : Prop where
  own : visits.own.Slots c stmt
  body : VisitsSlot c visits.body (asList stmt)

theorem StmtVisits.slots_single {visit} (h : visit.Slots c stmt) (hlist : asList stmt = [stmt]) :
    (StmtVisits.single visit).Slots c stmt :=
  ⟨h, hlist ▸ VisitsSlot.cons h visitsSlot_nil⟩

end

/-! ## Trees -/

/-- What a spread spreads; any other expression is itself. -/
def spreadOf : Expr → Expr
  | .spread arg => arg
  | e => e

/-- What a rest element binds; any other shape is itself. -/
def inside : Shape Operand → Shape Operand
  | .rest target => target
  | shape => shape

/-- What is to be shown of an expression: it leads to slot forms, however it is used. -/
structure ExprSlots (c : Option Demand) (e : Expr) : Prop where
  own : (operand e).Slots c
  argument : (argumentOf e).Slots c
  returned : (returnedOf e).Slots c
  parts : ∀ shape ∈ shape? e, PartsSlot c (spreadOf e) (inside shape)

/-- Most expressions are no destructurings, and are arguments like any other. -/
theorem exprSlots_plain (own : (operand e).Slots c)
    (hargument : argumentOf e = .plain (operand e)) (hreturned : returnedOf e = .plain (operand e))
    (hshape : shape? e = none) : ExprSlots c e where
  own := own
  argument := hargument ▸ CallArgument.slots_plain own
  returned := hreturned ▸ ⟨own, nofun⟩
  parts _ h := by simp [hshape] at h

/-- Only spreads are read as rest elements. -/
theorem exists_of_shape?_rest (h : shape? e = some (.rest shape)) : ∃ arg, e = .spread arg := by
  cases e with
  | spread arg => exact ⟨arg, rfl⟩
  | assign op target value => cases op <;> simp [shape?] at h
  | _ => simp [shape?] at h

theorem spreadOf_eq (h : shape? e = some shape)
    (hrest : ∀ target, shape ≠ .rest target) : spreadOf e = e := by
  cases e with
  | spread arg =>
    simp only [shape?, map_eq_some_iff] at h
    obtain ⟨target, -, rfl⟩ := h
    exact absurd rfl (hrest target)
  | _ => rfl

/-- Outside of arrays there are no rest elements. -/
theorem ExprSlots.partsSlot (h : ExprSlots c e) (hshape : shape? e = some shape) :
    PartsSlot c e shape := by
  have hparts := h.parts shape hshape
  cases shape with
  | rest target => exact fun _ _ _ hleaves => by simp [Shape.leaves?] at hleaves
  | _ => exact spreadOf_eq hshape nofun ▸ hparts

theorem itemParts_slot {es} (h : ∀ e ∈ es, ExprSlots c e) {shapes}
    (hshapes : shapeItems? es = some shapes) {whole} (hwhole : whole.Slots c) {i parts}
    (hparts : Shape.itemLeaves? operandAccess whole i shapes = some parts) :
    (∀ part ∈ parts, part.2.Slots c) ∧ ItemParts whole.expr i es (parts.map partExpr) := by
  induction es generalizing shapes i parts with
  | nil =>
    cases hshapes
    cases hparts
    exact ⟨by simp, .nil _ _⟩
  | cons e es ih =>
    simp only [shapeItems?, bind_eq_bind, bind_eq_some_iff, pure_def,
      some.injEq] at hshapes
    obtain ⟨shape, hshape, shapes', hshapes', rfl⟩ := hshapes
    obtain ⟨hfirst, htail⟩ := forall_mem_cons.mp h
    have hfirst := hfirst.parts shape hshape
    cases shape with
    | rest target =>
      obtain ⟨arg, rfl⟩ := exists_of_shape?_rest hshape
      simp only [Shape.itemLeaves?, bind_eq_bind, bind_eq_some_iff, pure_def,
        some.injEq] at hparts
      obtain ⟨first, hleaves, rest, hmore, rfl⟩ := hparts
      have hslice : (operandAccess.elementsFrom whole i).Slots c :=
        Operand.slots_call (Operand.slots_member hwhole _) fun arg harg =>
          List.mem_singleton.mp harg ▸ CallArgument.slots_plain (Operand.slots_lit _)
      obtain ⟨hslots, hfirst⟩ := hfirst hslice hleaves
      obtain ⟨hslots', hmore⟩ := ih htail hshapes' hmore
      exact ⟨List.forall_mem_append.mpr ⟨hslots, hslots'⟩, map_append ▸ .rest hfirst hmore⟩
    | _ =>
      rw [spreadOf_eq hshape (fun _ heq => by cases heq)] at hfirst
      simp only [Shape.itemLeaves?, bind_eq_bind, bind_eq_some_iff, pure_def,
        some.injEq] at hparts
      obtain ⟨first, hleaves, rest, hmore, rfl⟩ := hparts
      obtain ⟨hslots, hfirst⟩ := hfirst (Operand.slots_index hwhole (Operand.slots_lit _)) hleaves
      obtain ⟨hslots', hmore⟩ := ih htail hshapes' hmore
      exact ⟨List.forall_mem_append.mpr ⟨hslots, hslots'⟩, map_append ▸ .item hfirst hmore⟩

theorem propertyParts_slot (h : ∀ p ∈ ps, ExprSlots c p.value) {shapes}
    (hshapes : shapeProperties? ps = some shapes) {whole} (hwhole : whole.Slots c) {parts}
    (hparts : Shape.propertyLeaves? operandAccess whole shapes = some parts) :
    (∀ part ∈ parts, part.2.Slots c) ∧ PropertyParts whole.expr ps (parts.map partExpr) := by
  induction ps generalizing shapes parts with
  | nil =>
    cases hshapes
    cases hparts
    exact ⟨nofun, .nil _⟩
  | cons p ps ih =>
    obtain ⟨key, value, shorthand⟩ := p
    obtain ⟨hvalue, htail⟩ := forall_mem_cons.mp h
    -- a computed key is no destructuring
    obtain ⟨x, shape, shapes', hkey, hshape, hshapes', rfl⟩ : ∃ x shape shapes',
        (key = .name x ∨ key = .str x) ∧ shape? value = some shape ∧
        shapeProperties? ps = some shapes' ∧ shapes = (x, shape) :: shapes' := by
      cases key with
      | computed e => simp [shapeProperties?] at hshapes
      | name x | str x =>
        simp only [shapeProperties?, bind_eq_bind, bind_eq_some_iff, pure_def,
          some.injEq] at hshapes
        obtain ⟨shape, hshape, shapes', hshapes', rfl⟩ := hshapes
        exact ⟨x, shape, shapes', by simp, hshape, hshapes', rfl⟩
    simp only [Shape.propertyLeaves?, bind_eq_bind, bind_eq_some_iff, pure_def,
      some.injEq] at hparts
    obtain ⟨first, hleaves, rest, hmore, rfl⟩ := hparts
    obtain ⟨hslots, hfirst⟩ := hvalue.partsSlot hshape (Operand.slots_member hwhole x) hleaves
    obtain ⟨hslots', hmore⟩ := ih htail hshapes' hmore
    exact ⟨List.forall_mem_append.mpr ⟨hslots, hslots'⟩, map_append ▸ .cons hkey hfirst hmore⟩

theorem slots_operands {es} (h : ∀ e ∈ es, ExprSlots c e) : ∀ e ∈ operands es, e.Slots c := by
  rw [operands_eq_map]
  exact forall_mem_map.mpr fun e he => (h e he).own

theorem slots_operand? {e} (h : ∀ e' ∈ e, ExprSlots c e') :
    ∀ operand ∈ operand? e, operand.Slots c := by
  cases e with
  | none => exact nofun
  | some e => exact fun operand hmem => some.inj hmem ▸ (h e rfl).own

theorem slots_callArguments {args} (h : ∀ e ∈ args, ExprSlots c e) :
    ∀ arg ∈ callArguments args, arg.Slots c := by
  rw [callArguments_eq_map]
  exact forall_mem_map.mpr fun e he => (h e he).argument

theorem exprSlots_array {items} (h : ∀ e ∈ items, ExprSlots c e) : ExprSlots c (.array items) where
  own := Operand.slots_array (slots_operands h)
  argument := CallArgument.slots_plain (Operand.slots_array (slots_operands h))
  returned := ⟨Operand.slots_array (slots_operands h), fun _ hes =>
    some.inj hes ▸ ⟨slots_operands h, rfl⟩⟩
  parts shape hshape := by
    simp only [shape?, mem_def, map_eq_some_iff] at hshape
    obtain ⟨shapes, hshapes, rfl⟩ := hshape
    exact fun whole hwhole parts hparts => (itemParts_slot h hshapes hwhole hparts).imp_right .array

/-- A property leads to slot forms. -/
structure PropertySlots (c : Option Demand) (p : Property) : Prop where
  value : ExprSlots c p.value
  key : ∀ e, p.key = .computed e → ExprSlots c e

theorem slots_propertyOperands (h : ∀ p ∈ ps, PropertySlots c p) :
    ∀ p ∈ propertyOperands ps, p.Slots c := by
  induction ps with
  | nil => exact nofun
  | cons p ps ih =>
    obtain ⟨key, value, shorthand⟩ := p
    obtain ⟨hfirst, htail⟩ := forall_mem_cons.mp h
    cases key with
    | computed e =>
      exact forall_mem_cons.mpr
        ⟨⟨hfirst.value.own, (hfirst.key e rfl).own, by rw [operand_expr]⟩, ih htail⟩
    | name x => exact forall_mem_cons.mpr ⟨⟨hfirst.value.own, .inl ⟨x, rfl⟩⟩, ih htail⟩
    | str x => exact forall_mem_cons.mpr ⟨⟨hfirst.value.own, .inr ⟨x, rfl⟩⟩, ih htail⟩

theorem exprSlots_object (h : ∀ p ∈ ps, PropertySlots c p) : ExprSlots c (.object ps) where
  own := Operand.slots_object (slots_propertyOperands h)
  argument := CallArgument.slots_plain (Operand.slots_object (slots_propertyOperands h))
  returned := ⟨Operand.slots_object (slots_propertyOperands h), nofun⟩
  parts shape hshape := by
    simp only [shape?, mem_def, map_eq_some_iff] at hshape
    obtain ⟨shapes, hshapes, rfl⟩ := hshape
    exact fun whole hwhole parts hparts =>
      (propertyParts_slot (fun p hp => (h p hp).value) hshapes hwhole hparts).imp_right .object

theorem exprSlots_spread {arg} (h : ExprSlots c arg) : ExprSlots c (.spread arg) where
  own := Operand.slots_spread h.own
  argument := CallArgument.slots_plain (Operand.slots_spread h.own)
  returned := ⟨Operand.slots_spread h.own, nofun⟩
  parts shape hshape := by
    simp only [shape?, mem_def, map_eq_some_iff] at hshape
    obtain ⟨shape, hshape, rfl⟩ := hshape
    exact h.partsSlot hshape

theorem exprSlots_ident (x : String) : ExprSlots c (.ident x) where
  own := Operand.slots_ident x
  argument := CallArgument.slots_plain (Operand.slots_ident x)
  returned := ⟨Operand.slots_ident x, nofun⟩
  parts shape hshape := by
    obtain rfl := some.inj hshape
    intro whole hwhole parts hparts
    obtain rfl := some.inj hparts
    exact ⟨by simpa using hwhole, .name _ x⟩

theorem exprSlots_index {base i} (hbase : ExprSlots c base) (hi : ExprSlots c i) :
    ExprSlots c (.index base i) where
  own := Operand.slots_index hbase.own hi.own
  argument := by
    refine ⟨Operand.slots_index hbase.own hi.own, fun j hj => ?_⟩
    obtain rfl := some.inj hj
    exact ⟨hi.own, fun _ _ h => (Expr.index.inj h).2.symm⟩
  returned := ⟨Operand.slots_index hbase.own hi.own, nofun⟩
  parts := nofun

/-- Trees meet what is asked of them, if something is. -/
def Ready (c : Option Demand) (asked : Demand → Bool) : Prop := ∀ d ∈ c, asked d = true

theorem Ready.left {p q : Demand → Bool} (h : Ready c fun d => p d && q d) : Ready c p :=
  fun d hd => Bool.and_elim_left (h d hd)

theorem Ready.right {p q : Demand → Bool} (h : Ready c fun d => p d && q d) : Ready c q :=
  fun d hd => Bool.and_elim_right (h d hd)

theorem slots_written {op} (hop : Ready c fun _ => Grammar.isAssignable op e) (h : ExprSlots c e) :
    (written e).Slots c op e := by
  cases e with
  | ident x => exact rfl
  | member base x => exact ⟨h.own, rfl, operand_expr (.member base x)⟩
  | index base i => exact ⟨h.own, rfl, operand_expr (.index base i)⟩
  | array items =>
    exact ⟨rfl, fun d hd => of_decide_eq_true (hop d hd), fun shape hshape => h.partsSlot hshape⟩
  | object ps =>
    exact ⟨rfl, fun d hd => of_decide_eq_true (hop d hd), fun shape hshape => h.partsSlot hshape⟩
  | _ => exact fun d hd => nomatch hop d hd

theorem exprSlots_assign {op target value} (hop : Ready c fun _ => Grammar.isAssignable op target)
    (htarget : ExprSlots c target) (hvalue : ExprSlots c value) :
    ExprSlots c (.assign op target value) := by
  have own := Operand.slots_assign op (slots_written hop htarget) hvalue.own
  refine ⟨own, CallArgument.slots_plain own, ⟨own, nofun⟩, fun shape hshape => ?_⟩
  cases op with
  | assign =>
    simp only [shape?, mem_def, map_eq_some_iff] at hshape
    obtain ⟨shape, hshape, rfl⟩ := hshape
    intro whole hwhole parts hparts
    have hparts := htarget.partsSlot hshape (Operand.slots_binary .nullish hwhole hvalue.own) hparts
    rw [Operand.binary, operand_expr] at hparts
    exact hparts.imp_right .withDefault
  | _ => simp [shape?] at hshape

/-- The default of a parameter, if it has one, leads to slot forms. -/
def ParamSlots (c : Option Demand) (p : Pattern) : Prop :=
  ∀ target value, p = .withDefault target value → ExprSlots c value

theorem slots_paramOperands {ps} (h : ∀ p ∈ ps, ParamSlots c p) :
    (∀ p ∈ paramOperands ps, p.Slots c) ∧ (paramOperands ps).map (·.pattern) = ps := by
  induction ps with
  | nil => exact ⟨nofun, rfl⟩
  | cons p ps ih =>
    obtain ⟨hfirst, htail⟩ := forall_mem_cons.mp h
    obtain ⟨hslots, hpatterns⟩ := ih htail
    refine ⟨?_, congrArg (p :: ·) hpatterns⟩
    cases p with
    | withDefault target value =>
      exact forall_mem_cons.mpr ⟨⟨by rw [operand_expr], (hfirst target value rfl).own⟩, hslots⟩
    | _ => exact forall_mem_cons.mpr ⟨nofun, hslots⟩

theorem slots_visits_return (h : ExprSlots c e) :
    Visit.Slots c (visitReturn (some (returnedOf e))) (.ret (some e)) := by
  have hreturned := slots_visitReturn h.returned
  rwa [returnedOf_value, operand_expr] at hreturned

theorem slots_forLoop {start init test update body stmt} (hsource : start.map (·.source) = init)
    (hinit : ∀ i ∈ start, i.Slots c) (htest : ∀ e ∈ test, ExprSlots c e)
    (hupdate : ∀ e ∈ update, ExprSlots c e) (hbody : VisitsSlot c body (asList stmt)) :
    (StmtVisits.single (visitFor start (operand? test) (operand? update) body)).Slots c
      (.forLoop init test update stmt) := by
  have hvisit := slots_visitFor hinit (slots_operand? htest) (slots_operand? hupdate) hbody
  rw [operand?_map_expr, operand?_map_expr, hsource] at hvisit
  exact StmtVisits.slots_single hvisit rfl

mutual
theorem exprSlots : (e : Expr) → Ready c (e.walkable · false) → ExprSlots c e
  | .ident x, _ => exprSlots_ident x
  | .lit value, _ => exprSlots_plain (Operand.slots_lit value) rfl rfl rfl
  | .array items, h => exprSlots_array (exprsSlots items h)
  | .object ps, h => exprSlots_object (propertiesSlots ps h)
  | .function f, h => exprSlots_plain (fun _ _ _ _ => (walks_function (functionSlots f h)).bind
      fun _ _ hg => walks_pure (.function hg)) rfl rfl rfl
  | .unary op arg, h => exprSlots_plain (Operand.slots_unary op (exprSlots arg h).own) rfl rfl rfl
  | .update op prefixed arg, h =>
    exprSlots_plain (Operand.slots_update op prefixed (exprSlots arg h).own) rfl rfl rfl
  | .binary op left right, h =>
    exprSlots_plain
      (Operand.slots_binary op (exprSlots left h.left).own (exprSlots right h.right).own)
      rfl rfl rfl
  | .assign _ target value, h =>
    exprSlots_assign h.left.left (exprSlots target h.left.right) (exprSlots value h.right)
  | .conditional test consequent alternate, h =>
    exprSlots_plain (Operand.slots_conditional (exprSlots test h.left.left).own
      (exprSlots consequent h.left.right).own (exprSlots alternate h.right).own) rfl rfl rfl
  | .call callee args, h =>
    exprSlots_plain (Operand.slots_call (exprSlots callee h.left).own
      (slots_callArguments (exprsSlots args h.right))) rfl rfl rfl
  | .new callee args, h =>
    exprSlots_plain (Operand.slots_new (exprSlots callee h.left).own
      (slots_operands (exprsSlots args h.right))) rfl rfl rfl
  | .member base x, h => exprSlots_plain (Operand.slots_member (exprSlots base h).own x) rfl rfl rfl
  | .index base i, h => exprSlots_index (exprSlots base h.left) (exprSlots i h.right)
  | .sequence items, h =>
    exprSlots_plain (Operand.slots_sequenceOf (slots_operands (exprsSlots items h))) rfl rfl rfl
  | .spread arg, h => exprSlots_spread (exprSlots arg h)

theorem exprsSlots : (es : List Expr) → Ready c (walkableExprs · false es) → ∀ e ∈ es, ExprSlots c e
  | [], _ => nofun
  | e :: rest, h => forall_mem_cons.mpr ⟨exprSlots e h.left, exprsSlots rest h.right⟩

theorem exprSlots? : (e : Option Expr) → Ready c (walkableExpr? · false e) →
    ∀ e' ∈ e, ExprSlots c e'
  | none, _ => nofun
  | some e, h => by
    have hsome := exprSlots e h
    exact fun e' he' => some.inj he' ▸ hsome

theorem propertiesSlots : (ps : List Property) → Ready c (walkableProperties · false ps) →
    ∀ p ∈ ps, PropertySlots c p
  | [], _ => nofun
  | ⟨key, value, _⟩ :: rest, h => forall_mem_cons.mpr
    ⟨⟨exprSlots value h.left.right, keySlots key h.left.left⟩, propertiesSlots rest h.right⟩

theorem keySlots : (key : PropertyKey) → Ready c (key.walkable · false) →
    ∀ e, key = .computed e → ExprSlots c e
  | .name _, _ => nofun
  | .str _, _ => nofun
  | .computed e, h => by
    have hkey := exprSlots e h
    exact fun e' he' => PropertyKey.computed.inj he' ▸ hkey

theorem functionSlots : (f : Function) → Ready c (f.walkable · false) → (functionParts f).Slots c f
  | ⟨_, params, body, _⟩, h =>
    ⟨rfl, slots_paramOperands (paramsSlots params h.left), bodySlots body h.right, rfl⟩

theorem bodySlots : (body : FunctionBody) → Ready c (body.walkable · false) →
    VisitsSlot c (bodyVisits body) (bodyStmts body)
  | .block stmts, h => visitsSlots stmts h
  | .expr value, h => by
    rw [bodyVisits_expr]
    exact VisitsSlot.cons (slots_visits_return (exprSlots value h)) visitsSlot_nil

theorem paramsSlots : (ps : List Pattern) → Ready c (walkableParams · ps) → ∀ p ∈ ps, ParamSlots c p
  | [], _ => nofun
  | p :: rest, h => forall_mem_cons.mpr ⟨paramSlots p h.left, paramsSlots rest h.right⟩

theorem paramSlots : (p : Pattern) → Ready c p.walkable → ParamSlots c p
  | .ident _, _ | .array _, _ | .object _, _ | .rest _, _ => nofun
  | .withDefault _ value, h => by
    have hvalue := exprSlots value h
    exact fun _ _ heq => (Pattern.withDefault.inj heq).2 ▸ hvalue

theorem stmtSlots : (stmt : Stmt) → Ready c (stmt.walkable · false) → (stmtVisits stmt).Slots c stmt
  | .var kind decls, h => by
    obtain ⟨hslots, hsource⟩ := declaratorSlots decls h
    have hvisit := slots_visitVar kind hslots
    rw [hsource] at hvisit
    exact StmtVisits.slots_single hvisit rfl
  | .function f, h =>
    StmtVisits.slots_single (fun _ _ _ => (walks_function (functionSlots f h)).bind
      fun _ _ hg => walks_pure (.functionStmt hg)) rfl
  | .ret none, _ => StmtVisits.slots_single (fun _ _ w => walks_pure (.ret (.noExpr w))) rfl
  | .ret (some e), h => by
    rw [stmtVisits_ret]
    exact StmtVisits.slots_single (slots_visits_return (exprSlots e h)) rfl
  | .ifElse test consequent none, h => by
    have hvisit :=
      slots_visitIf (exprSlots test h.left.left).own (stmtSlots consequent h.left.right).body
    rw [operand_expr] at hvisit
    exact StmtVisits.slots_single hvisit rfl
  | .ifElse test consequent (some alternate), h => by
    have hvisit := slots_visitIf_else (exprSlots test h.left.left).own
      (stmtSlots consequent h.left.right).body (stmtSlots alternate h.right).body
    rw [operand_expr] at hvisit
    exact StmtVisits.slots_single hvisit rfl
  | .forLoop none test update body, h =>
    slots_forLoop rfl nofun (exprSlots? test h.left.left.right) (exprSlots? update h.left.right)
      (stmtSlots body h.right).body
  | .forLoop (some (.declare kind decls)) test update body, h => by
    obtain ⟨hslots, hsource⟩ := declaratorSlots decls h.left.left.left
    have hinit : InitOperand.Slots c (.declare kind (declaratorOperands decls)) := hslots
    exact slots_forLoop (congrArg (fun ds => some (ForInit.declare kind ds)) hsource)
      (fun _ hi => some.inj hi ▸ hinit) (exprSlots? test h.left.left.right)
      (exprSlots? update h.left.right) (stmtSlots body h.right).body
  | .forLoop (some (.expr value)) test update body, h => by
    have hinit : InitOperand.Slots c (.expr (operand value)) :=
      (exprSlots value h.left.left.left).own
    exact slots_forLoop (congrArg (fun e => some (ForInit.expr e)) (operand_expr value))
      (fun _ hi => some.inj hi ▸ hinit) (exprSlots? test h.left.left.right)
      (exprSlots? update h.left.right) (stmtSlots body h.right).body
  | .forEach each kind pattern right body, h => by
    have hvisit := slots_visitForEach each kind pattern (exprSlots right h.left).own
      (stmtSlots body h.right).body
    rw [operand_expr] at hvisit
    exact StmtVisits.slots_single hvisit rfl
  | .whileLoop test body, h => by
    have hvisit := slots_visitWhile (exprSlots test h.left).own (stmtSlots body h.right).body
    rw [operand_expr] at hvisit
    exact StmtVisits.slots_single hvisit rfl
  | .block body, h =>
    ⟨fun _ _ _ => (walks_inScope (visitsSlots body h)).bind fun _ _ hb =>
      walks_pure (.blockStmt hb), visitsSlots body h⟩
  | .expr e, h => by
    have hvalue := (exprSlots e h).own
    refine StmtVisits.slots_single (fun _ _ _ => hvalue.value.bind fun _ _ hv => walks_pure ?_) rfl
    rw [operand_expr] at hv
    exact .exprStmt hv
  | .breakLoop, _ => StmtVisits.slots_single (fun _ _ w => walks_pure (.breakLoop w)) rfl
  | .continueLoop, _ => StmtVisits.slots_single (fun _ _ w => walks_pure (.continueLoop w)) rfl
  | .empty, _ => ⟨fun _ _ w => walks_pure (.empty w), visitsSlot_nil⟩

theorem visitsSlots : (stmts : List Stmt) → Ready c (walkableStmts · false stmts) →
    VisitsSlot c (visits stmts) stmts
  | [], _ => visitsSlot_nil
  | stmt :: rest, h => VisitsSlot.cons (stmtSlots stmt h.left).own (visitsSlots rest h.right)

theorem declaratorSlots {loop} :
    (ds : List Declarator) → Ready c (walkableDeclarators · false loop ds) →
    (∀ d ∈ declaratorOperands ds, d.Slots c loop) ∧ (declaratorOperands ds).map (·.source) = ds
  | [], _ => ⟨nofun, rfl⟩
  | ⟨id, init⟩ :: rest, h => by
    obtain ⟨hslots, hsource⟩ := declaratorSlots rest h.right
    have hvalue := slots_operand? (exprSlots? init h.left.right)
    refine ⟨forall_mem_cons.mpr ⟨⟨fun d hd => ?_, hvalue⟩, hslots⟩, ?_⟩
    · have hmeets := h.left.left d hd
      rwa [Bool.false_and, Bool.or_false, ← operand?_map_expr init] at hmeets
    · rw [declaratorOperands, map_cons, hsource, DeclaratorOperand.source, operand?_map_expr]
end

/-! ## Units -/

section

variable {w' : Walk}

theorem slotBlock_sequence {body out}
    (hwalk : Succeeds (sequence (visits body) ancestors) w out w') :
    Formed (.block body out) w w' :=
  Walks.of_succeeds (c := none) (n := 0) (walks_sequence (visitsSlots body nofun)) hwalk

theorem slotExpr?_value? {e out} (hwalk : Succeeds (value? (operand? e) ancestors) w out w') :
    Formed (.expr? e out) w w' := by
  have hvalue := Walks.of_succeeds (c := none) (n := 1)
    (walks_value? (slots_operand? (exprSlots? e nofun))) hwalk
  rwa [operand?_map_expr] at hvalue

/-- If the walk over a body that it can go through fails then the source is to blame. -/
theorem slotUnit_error {d body} (h : walkableStmts d false body = true) {scopes}
    (hroot : scopes.rootName = d.root) {e} (hunit : slotUnit body scopes = .error e) :
    e.cause.inSource d = true := by
  have hready : Ready (some d) (walkableStmts · false body) := fun d' hd => some.inj hd ▸ h
  have hwalk : Walks (some d) 0 ⟨scopes, []⟩ (sequence (visits body) []) _ :=
    walks_sequence (visitsSlots body hready)
  have hrun : slotUnit body scopes = (do
      let walked ← sequence (visits body) [] ⟨scopes, []⟩
      .ok (.function ⟨none, [.ident contextName], .block walked.1, true⟩)) := rfl
  rw [hrun] at hunit
  rw [Walks] at hwalk
  cases hstmts : sequence (visits body) [] ⟨scopes, []⟩ with
  | error e' =>
    rw [hstmts] at hwalk hunit
    cases hunit
    exact hwalk d rfl ⟨hroot, rfl⟩
  | ok p =>
    rw [hstmts] at hunit
    cases hunit

end

end IndicatorCompiler.SlotForm
