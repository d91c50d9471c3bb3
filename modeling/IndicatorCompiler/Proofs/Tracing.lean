import IndicatorCompiler.Proofs.Sights
import IndicatorCompiler.Proofs.SlotForms
import IndicatorCompiler.Proofs.SlotHistory

/-!
# Tracing a walk

`Traced` follows a walk from one state to another: which numbers its counters handed out, which
statements it put in front of the current one, and how the sights of what it returned compare with
those of its source.  Traces are put together one after the other, so each step of a walk is traced
on its own.
-/

namespace IndicatorCompiler.SlotForm

open Script

/-! ## Counters -/

/-- Numbers that a counter hands out on its way. -/
structure Counted (lo : Nat) (numbers : List Nat) (hi : Nat) : Prop where
  le : lo ≤ hi
  bounds : ∀ n ∈ numbers, lo ≤ n ∧ n < hi
  increasing : numbers.Pairwise (· < ·)

namespace Counted

variable {a b c : Nat} {ms ns : List Nat}

theorem nil (n : Nat) : Counted n [] n := ⟨Nat.le_refl n, by simp, .nil⟩

theorem single {n} (h : a ≤ n) : Counted a [n] (n + 1) := ⟨by omega, by simp [h], by simp⟩

theorem append (h : Counted a ms b) (h' : Counted b ns c) : Counted a (ms ++ ns) c where
  le := Nat.le_trans h.le h'.le
  bounds n hn := by
    have hab := h.le
    have hbc := h'.le
    rcases List.mem_append.mp hn with hn | hn
    · have := h.bounds n hn
      omega
    · have := h'.bounds n hn
      omega
  increasing := by
    refine List.pairwise_append.mpr ⟨h.increasing, h'.increasing, fun m hm n hn => ?_⟩
    have h₁ := h.bounds m hm
    have h₂ := h'.bounds n hn
    omega

end Counted

/-! ## Scopes -/

/-- Every slot is named after its variable. -/
def SlotsNamed (s : Scopes) : Prop :=
  ∀ scope ∈ s.stack, ∀ x renamed kind, (x, Binding.slot renamed kind) ∈ scope.bindings →
    ∃ t : Scope, renamed = t.slotName x

theorem mem_of_bindingIn? {x binding scopes} (h : Scopes.bindingIn? x scopes = some binding) :
    ∃ scope ∈ scopes, (x, binding) ∈ scope.bindings := by
  induction scopes with
  | nil => cases h
  | cons scope more ih =>
    rw [Scopes.bindingIn?, Option.or_eq_some_iff] at h
    rcases h with h | ⟨-, h⟩
    · obtain ⟨l₁, l₂, hl, -⟩ := List.lookup_eq_some_iff.mp h
      exact ⟨scope, by simp, by simp [hl]⟩
    · obtain ⟨scope', hmem, hb⟩ := ih h
      exact ⟨scope', by simp [hmem], hb⟩

/-- The slot that a name resolves to is named after it. -/
theorem SlotsNamed.resolve {s} (h : SlotsNamed s) {x renamed kind}
    (hx : s.resolve x = .slot renamed kind) : ∃ t : Scope, renamed = t.slotName x := by
  unfold Scopes.resolve at hx
  split at hx
  · cases hx
  · split at hx
    · rename_i binding hbinding
      obtain ⟨scope, hmem, hb⟩ := mem_of_bindingIn? hbinding
      cases binding with
      | slot r k => exact h scope hmem x renamed kind (by cases hx; exact hb)
      | _ => cases hx
    · split at hx
      · cases hx
      · split at hx
        · cases hx
        · split at hx <;> cases hx

namespace SlotsNamed

variable {s : Scopes}

theorem push (h : SlotsNamed s) (kind : ScopeKind) : SlotsNamed (s.push kind) := by
  intro scope hscope
  rcases List.mem_cons.mp hscope with rfl | hscope
  · exact nofun
  · exact h scope hscope

theorem pop (h : SlotsNamed s) : SlotsNamed s.pop := by
  unfold Scopes.pop
  split
  · exact h
  · rename_i next more houter
    refine fun scope hscope => h scope ?_
    rw [Scopes.stack, houter]
    exact List.mem_cons_of_mem _ hscope

theorem bind (hs : SlotsNamed s) {x binding}
    (h : ∀ renamed kind, binding = .slot renamed kind → ∃ t : Scope, renamed = t.slotName x) :
    SlotsNamed (s.bind x binding) := by
  intro scope hscope
  rcases List.mem_cons.mp hscope with rfl | hscope
  · intro y renamed kind hmem
    rcases List.mem_cons.mp hmem with heq | hmem
    · cases heq
      exact h renamed kind rfl
    · exact hs s.inner (by simp [Scopes.stack]) y renamed kind hmem
  · exact hs scope (List.mem_cons_of_mem _ hscope)

end SlotsNamed

theorem pop_same (s : Scopes) : s.pop.reserved = s.reserved ∧ s.pop.nextCall = s.nextCall ∧
    s.pop.nextParam = s.nextParam ∧ s.pop.nextTemp = s.nextTemp := by
  unfold Scopes.pop
  split <;> exact ⟨rfl, rfl, rfl, rfl⟩

/-- What a walk hands out between two states of its scopes, and that it only operates on them. -/
structure Handed (s s' : Scopes) (new : Inserted) : Prop where
  named : SlotsNamed s → SlotsNamed s'
  reserved : s'.reserved = s.reserved
  calls : Counted s.nextCall (new.calls.map (·.2)) s'.nextCall
  captures : Counted s.nextParam new.captures s'.nextParam
  stems : ∀ c ∈ new.calls, c.1 ∈ callStems
  fresh : ∀ n ∈ new.captures, captureName n ∉ s.reserved
  names : ∃ names, HandsOut s names s'
  performed : ∃ ops, s' = s.perform ops

namespace Handed

variable {s s' s'' : Scopes} {new new' : Inserted}

theorem andThen (h : Handed s s' new) (h' : Handed s' s'' new') :
    Handed s s'' (new.andThen new') where
  named hs := h'.named (h.named hs)
  reserved := h'.reserved.trans h.reserved
  calls := by
    rw [Inserted.andThen, List.map_append]
    exact h.calls.append h'.calls
  captures := h.captures.append h'.captures
  stems c hc := (List.mem_append.mp hc).elim (h.stems c) (h'.stems c)
  fresh n hn := (List.mem_append.mp hn).elim (h.fresh n) fun hn => h.reserved ▸ h'.fresh n hn
  names := by
    obtain ⟨a, ha⟩ := h.names
    obtain ⟨b, hb⟩ := h'.names
    exact ⟨a ++ b, ha.trans hb⟩
  performed := by
    obtain ⟨a, rfl⟩ := h.performed
    obtain ⟨b, rfl⟩ := h'.performed
    exact ⟨a ++ b, (Scopes.perform_append s a b).symm⟩

/-- Nothing is handed out where the counters stay. -/
theorem of_same (hnamed : SlotsNamed s → SlotsNamed s') (hreserved : s'.reserved = s.reserved)
    (hcall : s'.nextCall = s.nextCall) (hparam : s'.nextParam = s.nextParam)
    (htemp : s'.nextTemp = s.nextTemp) (hperformed : ∃ ops, s' = s.perform ops) :
    Handed s s' .nothing where
  named := hnamed
  reserved := hreserved
  calls := by rw [hcall]; exact .nil _
  captures := by rw [hparam]; exact .nil _
  stems := nofun
  fresh := nofun
  names := ⟨[], .nothing hreserved fun k => by cases k; exacts [htemp, hparam]⟩
  performed := hperformed

theorem refl (s : Scopes) : Handed s s .nothing := of_same id rfl rfl rfl rfl ⟨[], rfl⟩

theorem push (s : Scopes) (kind : ScopeKind) : Handed s (s.push kind) .nothing :=
  of_same (.push · kind) rfl rfl rfl rfl ⟨[.push kind], rfl⟩

theorem pop (s : Scopes) : Handed s s.pop .nothing :=
  have ⟨hreserved, hcall, hparam, htemp⟩ := pop_same s
  of_same .pop hreserved hcall hparam htemp ⟨[.pop], rfl⟩

theorem enterFunction (s : Scopes) (frame : Frame) : Handed s (s.enterFunction frame) .nothing :=
  have hnamed (h : SlotsNamed { s with frames := frame :: s.frames }) := h.push .function
  of_same hnamed rfl rfl rfl rfl ⟨[.enterFunction frame], rfl⟩

theorem exitFunction (s : Scopes) : Handed s s.exitFunction .nothing :=
  have hnamed (h : SlotsNamed { s with frames := s.frames.tail }) := h.pop
  have ⟨hreserved, hcall, hparam, htemp⟩ := pop_same { s with frames := s.frames.tail }
  of_same hnamed hreserved hcall hparam htemp ⟨[.exitFunction], rfl⟩

theorem addVariable (s : Scopes) (x : String) (kind : VarKind) :
    Handed s (s.addVariable x kind).2 .nothing := by
  have hperformed : ∃ ops, (s.addVariable x kind).2 = s.perform ops := ⟨[.addVariable x kind], rfl⟩
  unfold Scopes.addVariable at hperformed ⊢
  split at hperformed
  · rename_i hbound
    rw [if_pos hbound]
    exact refl s
  · rename_i hbound
    rw [if_neg hbound]
    refine of_same (fun h => h.bind fun renamed kind heq => ⟨s.inner, ?_⟩) rfl rfl rfl rfl
      hperformed
    cases heq
    rfl

theorem addContextBound (s : Scopes) (x : String) : Handed s (s.addContextBound x) .nothing :=
  of_same (fun h => h.bind nofun) rfl rfl rfl rfl ⟨[.addContextBound x], rfl⟩

theorem addLoopVariable (s : Scopes) (x : String) : Handed s (s.addLoopVariable x) .nothing :=
  have hnamed (h : SlotsNamed { s with loopVars := x :: s.loopVars }) :
      SlotsNamed (s.addLoopVariable x) := h.bind nofun
  of_same hnamed rfl rfl rfl rfl ⟨[.addLoopVariable x], rfl⟩

theorem addTemp (s : Scopes) (x : String) : Handed s (s.addTemp x) .nothing :=
  have hnamed (h : SlotsNamed { s with temps := x :: s.temps }) : SlotsNamed (s.addTemp x) :=
  h.bind nofun
  of_same hnamed rfl rfl rfl rfl ⟨[.addTemp x], rfl⟩

theorem foldl {f : Scopes → String → Scopes} (hf : ∀ s x, Handed s (f s x) .nothing) (s : Scopes)
    (xs : List String) : Handed s (xs.foldl f s) .nothing := by
  induction xs generalizing s with
  | nil => exact refl s
  | cons x xs ih => exact (hf s x).andThen (ih (f s x))

/-- It does not matter to the counters of calls and captures what a temporary is used for. -/
theorem generateTemp (s : Scopes) : ∃ n, s.generateTemp.1 = tempName n ∧
    ∀ temps, Handed s s.generateTemp.2 ⟨[], [], temps⟩ := by
  obtain ⟨n, -, heq, -⟩ := Text.numbered_eq s.reserved "_tmp" s.nextTemp
  refine ⟨n, by rw [Scopes.generateTemp, heq]; rfl, fun temps => ?_⟩
  exact ⟨id, rfl, .nil _, .nil _, nofun, nofun, ⟨_, .name .temps s⟩, [.generateTemp], rfl⟩

theorem generateParam (s : Scopes) : ∃ n, s.generateParam.1 = captureName n ∧
    Handed s s.generateParam.2 ⟨[], [n], []⟩ := by
  obtain ⟨n, hn, heq, hfresh⟩ := Text.numbered_eq s.reserved "p" s.nextParam
  refine ⟨n, by rw [Scopes.generateParam, heq]; rfl, id, rfl, .nil _, ?_, nofun, ?_,
    ⟨_, .name .captures s⟩, [.generateParam], rfl⟩
  · simp only [Scopes.generateParam, heq]
    exact .single hn
  · intro m hm
    obtain rfl := List.mem_singleton.mp hm
    exact hfresh

theorem generateCall (s : Scopes) {stem} (hstem : stem ∈ callStems) :
    ∃ n, (s.generateCall stem).1 = callId stem n ∧
      Handed s (s.generateCall stem).2 ⟨[(stem, n)], [], []⟩ := by
  obtain ⟨n, hn, heq, -⟩ := Text.numbered_eq s.reserved ("_" ++ stem) s.nextCall
  refine ⟨n, by rw [Scopes.generateCall, heq]; rfl, id, rfl, ?_, .nil _, ?_, nofun,
    ⟨[], .nothing rfl fun k => by cases k <;> rfl⟩, [.generateCall stem], rfl⟩
  · simp only [Scopes.generateCall, heq]
    exact .single hn
  · intro c hc
    obtain rfl := List.mem_singleton.mp hc
    exact hstem

end Handed

/-! ## Traces -/

section

variable {cut : Bool} {w w' w'' : Walk} {src src' : List Sight}
    {view view' : List Sight → List Sight}

/-- The walk puts the statements `front` in front of the current one, and what it returns has the
sights `view` behind them.  Together they have the sights `src` of the source and those of what was
inserted. -/
structure Step (cut : Bool) (w w' : Walk) (src : List Sight) (view : List Sight → List Sight)
    (front : List Stmt) (new : Inserted) : Prop where
  handed : Handed w.scopes w'.scopes new
  hoisted : w'.hoisted = w.hoisted.modifyHead (· ++ front)
  front_nil : w.hoisted = [] → front = []
  within : ∀ γ, Within (observeStmts (placedSights cut) γ front ++
    view ((placedSights cut).past γ front)) src new

/-- The less is in reach, the more is seen. -/
def Antitone (view : List Sight → List Sight) : Prop := ∀ ⦃γ δ⦄, δ ⊆ γ → Fewer (view γ) (view δ)

/-- The walk takes such a step. -/
structure Traced (cut : Bool) (w w' : Walk) (src : List Sight) (view : List Sight → List Sight) :
    Prop where
  antitone : Antitone view
  steps : SlotsNamed w.scopes → ∃ front new, Step cut w w' src view front new

/-- What is in reach stays in reach. -/
theorem subset_past (cut : Bool) (γ : List Sight) (stmts : List Stmt) :
    γ ⊆ (placedSights cut).past γ stmts := by
  induction stmts generalizing γ with
  | nil => exact List.Subset.refl γ
  | cons stmt stmts ih =>
    exact List.Subset.trans (List.subset_append_right _ _) (ih (offered stmt ++ γ))

namespace Step

variable {front front' : List Stmt} {new new' : Inserted}

/-- Nothing is put in front. -/
theorem of_scopes {s} (h : Handed w.scopes s new) (hview : ∀ γ, Within (view γ) src new) :
    Step cut w { w with scopes := s } src view [] new where
  handed := h
  hoisted := by cases w.hoisted <;> simp
  front_nil _ := rfl
  within := hview

theorem append (h : Step cut w w' src view front new) (h' : Step cut w' w'' src' view' front' new')
    (hview : Antitone view) :
    Step cut w w'' (src ++ src') (fun γ => view γ ++ view' γ) (front ++ front')
    (new.andThen new') where
  handed := h.handed.andThen h'.handed
  hoisted := by
    rw [h'.hoisted, h.hoisted]
    cases w.hoisted <;> simp
  front_nil hnil := by
    rw [h.front_nil hnil, h'.front_nil (by rw [h.hoisted, hnil]; rfl)]
    rfl
  within γ := by
    -- what was returned first stands behind the later statements as well
    have hlater := hview (subset_past cut ((placedSights cut).past γ front) front')
    refine ((h.within γ).append (h'.within ((placedSights cut).past γ front))).of_fewer ?_
    have hpast : (placedSights cut).past γ (front ++ front') =
        (placedSights cut).past ((placedSights cut).past γ front) front' := List.foldl_append
    rw [observeStmts_append, hpast]
    refine .trans ?_ (((Fewer.refl _).append hlater).append (.refl _))
    refine fewer_of_perm (List.perm_iff_count.mpr fun s => ?_)
    simp only [List.count_append]
    omega

/-- Less may be seen. -/
theorem mono (h : Step cut w w' src view front new) (hview : ∀ γ, Fewer (view' γ) (view γ)) :
    Step cut w w' src view' front new where
  handed := h.handed
  hoisted := h.hoisted
  front_nil := h.front_nil
  within γ := (h.within γ).of_fewer ((Fewer.refl _).append (hview _))

theorem of_sourced (h : Step cut w w' src view front new) (hsrc : Sourced new.temps src src') :
    Step cut w w' src' view front new where
  handed := h.handed
  hoisted := h.hoisted
  front_nil := h.front_nil
  within γ := (h.within γ).of_sourced hsrc

/-- A statement that was hoisted has the sights of what it was made of; what it offers is in reach
from then on. -/
theorem hoist {stmt first rest} (h : Step cut w w' src view front new)
    (hw : w'.hoisted = first :: rest)
    (hstmt : ∀ γ, Fewer (stmt.observe (placedSights cut) ((placedSights cut).within stmt γ))
      (view γ))
    (hview : ∀ γ, Fewer (view' (offered stmt ++ γ)) []) :
    Step cut w { w' with hoisted := (first ++ [stmt]) :: rest } src view'
    (front ++ [stmt]) new where
  handed := h.handed
  hoisted := by
    have hhoisted := h.hoisted
    cases hlist : w.hoisted with
    | nil =>
      rw [hhoisted, hlist] at hw
      cases hw
    | cons first' rest' =>
      rw [hhoisted, hlist, List.modifyHead_cons, List.cons.injEq] at hw
      obtain ⟨rfl, rfl⟩ := hw
      simp
  front_nil hnil := by
    rw [h.hoisted, hnil] at hw
    cases hw
  within γ := by
    refine (h.within γ).of_fewer ?_
    have hpast : (placedSights cut).past γ (front ++ [stmt]) =
        offered stmt ++ (placedSights cut).past γ front := List.foldl_append
    rw [observeStmts_append, hpast, List.append_assoc, observeStmts, observeStmts, List.append_nil]
    refine (Fewer.refl _).append ?_
    simpa only [List.append_nil] using (hstmt _).append (hview ((placedSights cut).past γ front))

end Step

namespace Traced

theorem still (hanti : Antitone view)
    (h : SlotsNamed w.scopes → ∀ γ, Within (view γ) src .nothing) : Traced cut w w src view :=
  ⟨hanti, fun hnamed => ⟨_, _, .of_scopes (.refl _) (h hnamed)⟩⟩

theorem nil : Traced cut w w [] fun _ => [] :=
  still (fun _ _ _ => .refl _) fun _ _ => (Fewer.refl []).within

theorem scopes {s} (h : Handed w.scopes s .nothing) :
    Traced cut w { w with scopes := s } [] fun _ => [] :=
  ⟨fun _ _ _ => .refl _, fun _ => ⟨_, _, .of_scopes h fun _ => (Fewer.refl []).within⟩⟩

theorem append (h : Traced cut w w' src view) (h' : Traced cut w' w'' src' view') :
    Traced cut w w'' (src ++ src') fun γ => view γ ++ view' γ := by
  refine ⟨fun γ δ hγ => (h.antitone hγ).append (h'.antitone hγ), fun hnamed => ?_⟩
  obtain ⟨front, new, hstep⟩ := h.steps hnamed
  obtain ⟨front', new', hstep'⟩ := h'.steps (hstep.handed.named hnamed)
  exact ⟨_, _, hstep.append hstep' h.antitone⟩

/-- Less may be seen, and the source may be read in another order. -/
theorem mono (h : Traced cut w w' src view) (hanti : Antitone view')
    (hview : ∀ γ, Fewer (view' γ) (view γ)) (hsrc : src.Perm src') :
    Traced cut w w' src' view' := by
  refine ⟨hanti, fun hnamed => ?_⟩
  obtain ⟨front, new, hstep⟩ := h.steps hnamed
  exact ⟨_, _, (hstep.mono hview).of_sourced (sourced_of_perm hsrc _)⟩

theorem hoist {stmt} (h : Traced cut w w' src view) (hw : Hoists stmt w' w'')
    (hstmt : ∀ γ, Fewer (stmt.observe (placedSights cut) ((placedSights cut).within stmt γ))
      (view γ))
    (hanti : Antitone view') (hview : ∀ γ, Fewer (view' (offered stmt ++ γ)) []) :
    Traced cut w w'' src view' := by
  obtain ⟨first, rest, hhoisted, rfl⟩ := hw
  refine ⟨hanti, fun hnamed => ?_⟩
  obtain ⟨front, new, hstep⟩ := h.steps hnamed
  exact ⟨_, _, hstep.hoist hhoisted hstmt hview⟩

/-- A capture is due to be declared, under its name. -/
theorem generateParam (cut : Bool) (w : Walk) : ∃ n, w.scopes.generateParam.1 = captureName n ∧
    Traced cut w { w with scopes := w.scopes.generateParam.2 } []
      fun _ => [.constant (captureName n), .literal (captureName n)] := by
  obtain ⟨n, hname, hhanded⟩ := Handed.generateParam w.scopes
  refine ⟨n, hname, fun _ _ _ => .refl _, fun _ => ⟨[], _, .of_scopes hhanded fun _ => ?_⟩⟩
  refine ⟨fun t => ?_, fun m => ?_, fun m => ?_, fun m => ?_, nofun, fun s m => ?_⟩
  · by_cases ht : captureName n = t <;> simp [Inserted.ids, ht]
  · by_cases hm : n = m <;> simp [hm]
  · by_cases hm : captureName n = captureName m
    · simp [captureName_inj hm]
    · simp [hm]
  · simp
  · simp

/-- An identity is due to be passed. -/
theorem generateCall (cut : Bool) (w : Walk) {stem} (hstem : stem ∈ callStems) :
    ∃ n, (w.scopes.generateCall stem).1 = callId stem n ∧
      Traced cut w { w with scopes := (w.scopes.generateCall stem).2 } []
        fun _ => [.literal (callId stem n)] := by
  obtain ⟨n, hname, hhanded⟩ := Handed.generateCall w.scopes hstem
  refine ⟨n, hname, fun _ _ _ => .refl _, fun _ => ⟨[], _, .of_scopes hhanded fun _ => ?_⟩⟩
  refine ⟨fun t => ?_, fun m => ?_, fun m => ?_, fun m => ?_, nofun, fun s m => ?_⟩
  · by_cases ht : callId stem n = t <;> simp [Inserted.ids, ht]
  all_goals simp

end Traced

end

end IndicatorCompiler.SlotForm
