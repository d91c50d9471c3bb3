import IndicatorCompiler.Proofs.FreshNames

/-!
# Paths of identities

While code runs, the identity of a call is joined to those of the calls that it runs inside, and the
identity of a capture to that of the call that it belongs to.  Nothing is put between them.  The
path still tells its parts: a call starts at an underscore, its number goes on as long as there are
digits, and only a capture starts with anything else.
-/

namespace IndicatorCompiler.SlotForm

/-- An identity that some scopes hand out for a call. -/
def IsCallId (id : String) : Prop := ∃ s : Scopes, ∃ stem ∈ callStems, id = (s.generateCall stem).1

/-- An identity that some scopes hand out for a capture. -/
def IsCaptureId (id : String) : Prop := ∃ s : Scopes, id = s.generateParam.1

/-- Calls from the outermost to the innermost, and maybe a capture of the last one. -/
@[ext] structure IdPath where
  calls : List String
  capture : Option String
  isCallId : ∀ id ∈ calls, IsCallId id
  isCaptureId : ∀ id ∈ capture, IsCaptureId id

namespace IdPath

/-- The path as it is joined at run time. -/
def text (p : IdPath) : String := String.join p.calls ++ p.capture.getD ""

/-- What is left behind the first call. -/
def rest (p : IdPath) : IdPath where
  calls := p.calls.tail
  capture := p.capture
  isCallId id h := p.isCallId id (List.mem_of_mem_tail h)
  isCaptureId := p.isCaptureId

@[simp] theorem calls_rest (p : IdPath) : p.rest.calls = p.calls.tail := rfl

@[simp] theorem capture_rest (p : IdPath) : p.rest.capture = p.capture := rfl

end IdPath

/-! ## Single identities -/

theorem isCallId_iff {id} : IsCallId id ↔ ∃ stem ∈ callStems, ∃ n, id = callId stem n := by
  constructor
  · rintro ⟨s, stem, hstem, rfl⟩
    obtain ⟨n, -, heq⟩ :=
      Text.numberedWithin_eq s.reserved ("_" ++ stem) s.reserved.length s.nextCall
    exact ⟨stem, hstem, n, by rw [Scopes.generateCall, Text.numbered, heq]; rfl⟩
  · rintro ⟨stem, hstem, n, rfl⟩
    exact ⟨{ Scopes.ofRoot contextName with nextCall := n }, stem, hstem, rfl⟩

theorem isCaptureId_iff {id} : IsCaptureId id ↔ ∃ n, id = captureName n := by
  constructor
  · rintro ⟨s, rfl⟩
    obtain ⟨n, -, heq⟩ := Text.numberedWithin_eq s.reserved "p" s.reserved.length s.nextParam
    exact ⟨n, by rw [Scopes.generateParam, Text.numbered, heq]; rfl⟩
  · rintro ⟨n, rfl⟩
    exact ⟨{ Scopes.ofRoot contextName with nextParam := n }, rfl⟩

theorem toList_callId (stem : String) (n : Nat) :
    (callId stem n).toList = ("_" ++ stem).toList ++ Nat.toDigits 10 n := by
  rw [callId, String.toList_append, Nat.toString_eq_ofList_toDigits, String.toList_ofList]

/-- A call ends where no digit follows. -/
theorem IsCallId.append_inj {a b s t} (ha : IsCallId a) (hb : IsCallId b)
    (hs : ∀ c ∈ s.head?, ¬ c.isDigit) (ht : ∀ c ∈ t.head?, ¬ c.isDigit)
    (h : a.toList ++ s = b.toList ++ t) : a = b ∧ s = t := by
  obtain ⟨stem, hstem, m, rfl⟩ := isCallId_iff.mp ha
  obtain ⟨stem', hstem', n, rfl⟩ := isCallId_iff.mp hb
  rw [toList_callId, toList_callId, List.append_assoc, List.append_assoc] at h
  obtain ⟨hword, h⟩ := stem_append_inj (callStem_no_digit hstem) (callStem_no_digit hstem') h
  obtain ⟨rfl, hrest⟩ := toDigits_append_inj hs ht h
  exact ⟨by rw [callId, callId, String.toList_injective hword], hrest⟩

theorem IsCallId.head? {id} (h : IsCallId id) : id.toList.head? = some '_' := by
  obtain ⟨stem, -, n, rfl⟩ := isCallId_iff.mp h
  simp [toList_callId]

theorem IsCaptureId.head? {id} (h : IsCaptureId id) : id.toList.head? = some 'p' := by
  obtain ⟨n, rfl⟩ := isCaptureId_iff.mp h
  simp [captureName]

/-! ## Paths -/

namespace IdPath

theorem toList_text (p : IdPath) :
    p.text.toList = p.calls.flatMap String.toList ++ (p.capture.getD "").toList := by
  rw [text, String.toList_append, String.toList_join]

/-- A path starts with an underscore if it has a call. -/
theorem head?_text (p : IdPath) : p.text.toList.head? =
      if p.calls = [] then p.capture.map fun _ => 'p' else some '_' := by
  rw [toList_text]
  cases hcalls : p.calls with
  | nil =>
    cases hcapture : p.capture with
    | none => simp
    | some id => simpa using (p.isCaptureId id (by simp [hcapture])).head?
  | cons id rest =>
    have hhead := (p.isCallId id (by simp [hcalls])).head?
    simp [hhead]

theorem head?_text_not_digit (p : IdPath) : ∀ c ∈ p.text.toList.head?, ¬ c.isDigit := by
  intro c hc
  rw [head?_text] at hc
  split at hc
  · obtain ⟨-, -, rfl⟩ := Option.map_eq_some_iff.mp hc
    decide
  · obtain rfl : '_' = c := Option.some.inj hc
    decide

theorem toList_text_of_nil {p : IdPath} (h : p.calls = []) :
    p.text.toList = (p.capture.getD "").toList := by
  rw [toList_text, h, List.flatMap_nil, List.nil_append]

theorem toList_text_of_cons {p : IdPath} {id calls} (h : p.calls = id :: calls) :
    p.text.toList = id.toList ++ p.rest.text.toList := by
  rw [toList_text, toList_text, h, List.flatMap_cons, List.append_assoc, calls_rest, h,
    List.tail_cons, capture_rest]

theorem capture_eq_of_nil {p q : IdPath} (hp : p.calls = []) (hq : q.calls = [])
    (h : p.text = q.text) : p.capture = q.capture := by
  have hhead := congrArg (·.toList.head?) h
  simp only [head?_text, hp, hq, if_true] at hhead
  rw [← String.toList_inj, toList_text_of_nil hp, toList_text_of_nil hq, String.toList_inj] at h
  cases hpc : p.capture <;> cases hqc : q.capture <;> simp_all

/-- The text of a path tells its calls and its capture. -/
theorem text_decodes {p q : IdPath} (h : p.text = q.text) : p = q := by
  suffices p.calls = q.calls ∧ p.capture = q.capture from IdPath.ext this.1 this.2
  -- both paths lose their first call in a step
  induction hp : p.calls generalizing p q with
  | nil =>
    cases hq : q.calls with
    | nil => exact ⟨rfl, capture_eq_of_nil hp hq h⟩
    | cons id rest =>
      have hhead := congrArg (·.toList.head?) h
      cases hcapture : p.capture <;> simp [head?_text, hp, hq, hcapture] at hhead
  | cons id calls ih =>
    cases hq : q.calls with
    | nil =>
      have hhead := congrArg (·.toList.head?) h
      cases hcapture : q.capture <;> simp [head?_text, hp, hq, hcapture] at hhead
    | cons id' calls' =>
      have htext := congrArg String.toList h
      rw [toList_text_of_cons hp, toList_text_of_cons hq] at htext
      obtain ⟨rfl, hrest⟩ :=
        (p.isCallId id (by simp [hp])).append_inj (q.isCallId id' (by simp [hq]))
        p.rest.head?_text_not_digit q.rest.head?_text_not_digit htext
      obtain ⟨hcalls, hcapture⟩ := ih (String.toList_injective hrest) (by rw [calls_rest, hp]; rfl)
      rw [calls_rest, hq, List.tail_cons] at hcalls
      exact ⟨by rw [hcalls], hcapture⟩

/-- A library call in the body of a function that another function calls, and its capture. -/
def nested : IdPath where
  calls := [callId "fn" 0, callId "fn" 12, callId "ta" 3]
  capture := some (captureName 7)
  isCallId := by
    simp only [List.forall_mem_cons]
    exact ⟨isCallId_iff.mpr ⟨"fn", by decide, 0, rfl⟩, isCallId_iff.mpr ⟨"fn", by decide, 12, rfl⟩,
      isCallId_iff.mpr ⟨"ta", by decide, 3, rfl⟩, by simp⟩
  isCaptureId := by
    rintro id ⟨⟩
    exact isCaptureId_iff.mpr ⟨7, rfl⟩

/-- Scopes of a unit that declares two of the names that they would hand out. -/
def crowded : Scopes :=
  { Scopes.ofRoot contextName with reserved := ["_fn10", "_fn11"], nextCall := 10, nextParam := 7 }

/-- The same path, with identities that crowded scopes hand out. -/
def skipping : IdPath where
  calls := [callId "fn" 0, (crowded.generateCall "fn").1, callId "ta" 3]
  capture := some crowded.generateParam.1
  isCallId := by
    simp only [List.forall_mem_cons]
    exact ⟨isCallId_iff.mpr ⟨"fn", by decide, 0, rfl⟩, ⟨crowded, "fn", by decide, rfl⟩,
      isCallId_iff.mpr ⟨"ta", by decide, 3, rfl⟩, by simp⟩
  isCaptureId := by
    rintro id ⟨⟩
    exact ⟨crowded, rfl⟩

theorem nested_eq_skipping : nested.text = "_fn0_fn12_ta3p7" ∧ nested = skipping :=
  ⟨by decide, text_decodes (by decide)⟩

end IdPath

end IndicatorCompiler.SlotForm
