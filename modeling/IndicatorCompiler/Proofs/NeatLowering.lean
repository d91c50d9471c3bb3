import IndicatorCompiler.Proofs.ClearLines
import IndicatorCompiler.Proofs.Emission

/-!
# Lowering writes clear lines

Whatever lowering writes and emits is clear at every level if the names of the indicator are words,
so a whole program is lowered to a clear script.
-/

namespace IndicatorCompiler.Lowering

open Emitted (layoutAll layoutArm layoutArms)
open Pine (isWord AllValid)

/-! ## Phrases -/

theorem clear_name {n} (h : isWord n = true) : Clear (bindingName n) :=
  clear_of_isWord (isWord_bindingName h)

theorem clear_within {r : Text.Rendered} (h : Clear r.text) (least : Nat) :
    Clear (r.within least) := by
  unfold Text.Rendered.within
  split
  · exact ((by decide : Clear "(").append h).append (by decide)
  · exact h

/-- An operator stands between blanks. -/
theorem clear_operator {l op r} (hl : Clear l) (hop : Clear (" " ++ op ++ " ")) (hr : Clear r) :
    Clear (l ++ " " ++ op ++ " " ++ r) := by
  simpa only [String.append_assoc] using (hl.append hop).append hr

theorem clear_signed {t} (op : Pine.UnaryOp) (h : Clear t) : Clear (signed op t) := by
  have hsign : Clear (unarySign op).toString := by cases op <;> decide
  unfold signed
  refine hsign.append ?_
  split
  · exact ((by decide : Clear "(").append h).append (by decide)
  · exact h

theorem clear_choice {t c a} (ht : Clear t) (hc : Clear c) (ha : Clear a) :
    Clear (t ++ " ? " ++ c ++ " : " ++ a) :=
  (((ht.append (by decide)).append hc).append (by decide)).append ha

theorem clear_brackets {ts} (h : ∀ t ∈ ts, Clear t) : Clear ("[" ++ Text.joinWith ", " ts ++ "]") :=
  ((by decide : Clear "[").append (clear_joinWith h)).append (by decide)

theorem clear_names {ns : List String} (h : ∀ n ∈ ns, isWord n = true) :
    Clear (tupleText (ns.map bindingName)) :=
  clear_brackets (List.forall_mem_map.mpr fun n hn => clear_name (h n hn))

theorem clear_fieldsText {fields} (hnames : ∀ field ∈ fields, isWord field.1 = true)
    (hvalues : ∀ field ∈ fields, Clear field.2) : Clear (fieldsText fields) := by
  refine ((by decide : Clear "\x7b ").append (clear_joinWith (List.forall_mem_map.mpr
    fun field hfield => ?_))).append (by decide)
  exact ((clear_of_isWord (hnames field hfield)).append (by decide)).append (hvalues field hfield)

theorem clear_argumentsText {receiver args} (hreceiver : ∀ t ∈ receiver, Clear t)
    (hnames : ∀ arg ∈ args, ∀ n ∈ arg.1, isWord n = true) (hargs : ∀ arg ∈ args, Clear arg.2) :
    Clear (argumentsText receiver args) := by
  refine clear_joinWith fun t ht => ?_
  simp only [List.mem_append, List.mem_filterMap] at ht
  rcases ht with (ht | ⟨arg, harg, ht⟩) | ht
  · exact hreceiver t ht
  · split at ht
    · cases ht
      exact hargs arg harg
    · cases ht
  · split at ht
    · cases ht
    · obtain rfl := List.mem_singleton.mp ht
      refine clear_fieldsText (fun field hfield => ?_) fun field hfield => ?_ <;>
      · obtain ⟨arg, harg, hfield⟩ := List.mem_filterMap.mp hfield
        obtain ⟨n, hn, rfl⟩ := Option.map_eq_some_iff.mp hfield
        first
        | exact hnames arg harg n hn
        | exact hargs arg harg

theorem clear_constructorText {library} (h : Clear library) (types : List Pine.TypeRef) :
    Clear (constructorText library types) := by
  have hprimitive : ∀ name ∈ primitiveTypes, Clear name := by decide
  unfold constructorText
  split
  · split
    · rename_i htype
      simp only [Bool.and_eq_true, decide_eq_true_eq] at htype
      exact (h.append (by decide)).append (hprimitive _ htype.2)
    · exact h.append (by decide)
  · exact h.append (by decide)

theorem clear_abs_literal (x : Number.Double) : Clear x.abs.literal := by
  cases x with
  | finite _ magnitude => exact clear_magnitude magnitude
  | infinite _ => exact (by decide : Clear "Infinity")
  | nan => exact (by decide : Clear "NaN")

theorem clear_rangeHead {y first last step} (hy : Clear y) (hfirst : Clear first)
    (hlast : Clear last) (hstep : Clear step.2) : Clear (rangeHead y first last step) := by
  have hcompare : Clear (if step.1 then " >= " else " <= ") := by split <;> decide
  have hinit : Clear ("for (let " ++ y ++ " = " ++ first ++ "; ") :=
    ((((by decide : Clear "for (let ").append hy).append (by decide)).append hfirst).append
    (by decide)
  exact ((((((hinit.append hy).append hcompare).append hlast).append (by decide)).append hy).append
    hstep).append (by decide)

/-! ## Statements -/

/-- The statements are clear at every level. -/
def ClearAll (stmts : List Emitted) : Prop := ∀ level, Clear (layoutAll level stmts)

theorem clearAll_nil : ClearAll [] := fun _ => (by decide : Clear "")

theorem clearAll_append {a b} (ha : ClearAll a) (hb : ClearAll b) : ClearAll (a ++ b) :=
  fun level => Emitted.layoutAll_append level a b ▸ (ha level).append (hb level)

theorem clearAll_cons {stmt rest} (h : ∀ level, Clear (stmt.layout level)) (hrest : ClearAll rest) :
    ClearAll (stmt :: rest) :=
  fun level => (h level).append (hrest level)

theorem clearAll_of_forall {stmts} (h : ∀ stmt ∈ stmts, ∀ level, Clear (stmt.layout level)) :
    ClearAll stmts := by
  induction stmts with
  | nil => exact clearAll_nil
  | cons stmt stmts ih =>
    obtain ⟨hstmt, hstmts⟩ := List.forall_mem_cons.mp h
    exact clearAll_cons hstmt (ih hstmts)

theorem clear_line {text} (h : Clear text) (level : Nat) :
    Clear ((Emitted.line text).layout level) :=
  ((clear_indentation level).append h).append (by decide)

theorem clear_block {head body} (hhead : Clear head) (hbody : ClearAll body) (level : Nat) :
    Clear ((Emitted.block head body).layout level) :=
  (((((clear_indentation level).append hhead).append (by decide)).append (hbody _)).append
    (clear_indentation level)).append (by decide)

theorem clear_arm {arm} (htest : Clear arm.test) (hbody : ClearAll arm.body) (level : Nat) :
    Clear (layoutArm level arm) := by
  obtain ⟨test, body⟩ := arm
  exact (((((by decide : Clear "(").append htest).append (by decide)).append (hbody _)).append
    (clear_indentation level)).append (by decide)

theorem clear_arms {arms level} (h : ∀ arm ∈ arms, Clear (layoutArm level arm)) :
    Clear (layoutArms level arms) := by
  induction arms with
  | nil => exact (by decide : Clear "")
  | cons arm arms ih =>
    obtain ⟨harm, harms⟩ := List.forall_mem_cons.mp h
    exact ((by decide : Clear " else if ").append harm).append (ih harms)

theorem clear_chain {first more last}
    (harms : ∀ level, ∀ arm ∈ first :: more, Clear (layoutArm level arm))
    (hlast : ∀ body ∈ last, ClearAll body) (level : Nat) :
    Clear ((Emitted.chain first more last).layout level) := by
  obtain ⟨hfirst, hmore⟩ := List.forall_mem_cons.mp (harms level)
  have hchain := (((clear_indentation level).append (by decide : Clear "if ")).append hfirst).append
    (clear_arms hmore)
  cases last with
  | none => exact (hchain.append (b := "") (by decide)).append (by decide)
  | some body =>
    exact (hchain.append ((((by decide : Clear " else \x7b\n").append (hlast body rfl _)).append
      (clear_indentation level)).append (by decide))).append (by decide)

/-- Values can be delivered to the sink. -/
def Sink.Neat : Sink → Prop
  | assign y => Clear y
  | ret | discard => True

theorem clear_delivered {sink : Sink} {value} (hsink : sink.Neat) (hvalue : Clear value) :
    ClearAll (sink.delivered value) := by
  cases sink with
  | assign y =>
    exact clearAll_cons (fun level => ((((clear_indentation level).append hsink).append
      (by decide)).append hvalue).append (by decide)) clearAll_nil
  | ret =>
    exact clearAll_cons (fun level => (((clear_indentation level).append (by decide)).append
      hvalue).append (by decide)) clearAll_nil
  | discard => exact clearAll_nil

/-! ## Outcomes -/

/-- The outcome is clear. -/
def Neat : Outcome → Prop
  | .text _ r => Clear r.text
  | .phrase t | .value _ t => Clear t
  | .choices _ last t => Clear last → Clear t
  | .binding stmt => ∀ level, Clear (stmt.layout level)
  | .into sink _ new => sink.Neat → ClearAll new
  | .chain sink fallback _ _ new | .last sink fallback _ new | .body sink fallback _ new
  | .stmt sink fallback _ new => sink.Neat → Clear fallback → ClearAll new
  | .arms sink fallback _ arms => sink.Neat → Clear fallback →
      ∀ level, ∀ arm ∈ arms, Clear (layoutArm level arm)
  | .one fallback _ stmt value =>
    Clear fallback → (∀ level, Clear (stmt.layout level)) ∧ Clear value

theorem Emits.neat {S : Scene} (hS : S.valid) {outcome} (h : Emits S outcome) : Neat outcome := by
  induction h with
  | ident h | name h => exact clear_name (h hS).1
  | int n => exact clear_nat n
  | float h =>
    rcases h hS with ⟨x, rfl⟩ | rfl
    · exact clear_magnitude x
    · exact (by decide : Clear "Infinity")
  | str s | color s => exact clear_quote s
  | bool b =>
    change Clear (if b then "true" else "false")
    cases b <;> decide
  | na => exact (by decide : Clear "NaN")
  | binary op _ _ _ _ hl hr => exact clear_operator hl (by cases op <;> decide) hr
  | unary op _ _ ih => exact clear_signed op ih
  | ternary _ _ _ _ ht hy hz => exact clear_choice ht (clear_within hy _) (clear_within hz _)
  | call _ _ _ _ _ hnames _ ht hreceiver htexts =>
    exact ((Clear.append ht (by decide)).append
      (clear_argumentsText hreceiver (hnames hS) htexts)).append (by decide)
  | member _ hp _ ih | point hp _ ih =>
    exact (Clear.append ih (by decide)).append (clear_of_isWord (hp hS))
  | history _ _ _ _ ht ho => exact ((Clear.append ht (by decide)).append ho).append (by decide)
  | tuple _ _ ih => exact clear_brackets ih
  | called level _ _ ih =>
    exact (((by decide : Clear "(() => \x7b\n").append (ih trivial _)).append
      (clear_indentation level)).append (by decide)
  | ternaries _ _ _ hlast ih => exact ih hlast
  | within _ n ih | single _ _ ih => exact clear_within ih _
  | names h => exact clear_names fun n hn => (h hS n hn).1
  | method _ h => exact clear_name (h hS)
  | fresh k => exact clear_of_isWord (isWord_switchName k)
  | construct types _ ih => exact clear_constructorText ih types
  | joined hs _ _ ht hu =>
    have hsign : ∀ s ∈ [" == ", " = "], Clear s := by decide
    exact (Clear.append ht (hsign _ hs)).append hu
  | entries _ ih => exact Clear.append ih (by decide)
  | step hs =>
    have hsign : ∀ s ∈ ["--", "++"], Clear s := by decide
    exact hsign _ hs
  | amount hs _ ih =>
    have hsign : ∀ s ∈ [" -= ", " += "], Clear s := by decide
    exact (hsign _ hs).append ih
  | literal x => exact clear_abs_literal x
  | absolute _ ih => exact ((by decide : Clear "Math.abs(").append ih).append (by decide)
  | unmatched => exact (by decide : Clear "undefined")
  | none => exact id
  | either _ _ _ htest hvalue ih => exact fun hlast => clear_choice htest hvalue (ih hlast)
  | @binding k _ _ _ ih =>
    exact clear_line
      (((((by decide : Clear "let ").append (clear_of_isWord (isWord_switchName k))).append
      (by decide)).append ih).append (by decide))
  | plain _ _ _ _ hbefore ih =>
    exact fun hsink => clearAll_append (clearAll_of_forall hbefore) (clear_delivered hsink ih)
  | conditional _ _ ih | switch _ _ _ ih => exact fun hsink => ih hsink (by decide)
  | bare _ _ hbefore ih =>
    exact fun hsink hfallback => clearAll_append (clearAll_of_forall hbefore) (ih hsink hfallback)
  | chain _ _ _ _ hbefore harms hfinal =>
    exact fun hsink hfallback => clearAll_append (clearAll_of_forall hbefore) (clearAll_cons
      (clear_chain (harms hsink hfallback) fun new hnew => hfinal new hnew hsink hfallback)
      clearAll_nil)
  | armsNil => exact fun _ _ _ => by simp
  | armsCons _ _ _ htest hbody ih =>
    exact fun hsink hfallback level => List.forall_mem_cons.mpr
      ⟨clear_arm htest (hbody hsink hfallback) level, ih hsink hfallback level⟩
  | lastNone | bodyNil => exact fun hsink hfallback => clear_delivered hsink hfallback
  | lastSome _ ih | bodyLast _ _ ih => exact ih
  | bodyCons _ _ _ h ih =>
    exact fun hsink hfallback => clearAll_append (h trivial hfallback) (ih hsink hfallback)
  | oneOf _ _ _ hbefore ih hbetween =>
    intro hsink hfallback
    obtain ⟨hstmt, hvalue⟩ := ih hfallback
    exact clearAll_append (clearAll_of_forall hbefore) (clearAll_cons hstmt
      (clearAll_append (clearAll_of_forall hbetween) (clear_delivered hsink hvalue)))
  | lifted _ hn _ _ ih =>
    have hname := clear_name (hn hS).1
    exact fun hsink _ => clearAll_cons (clear_line (((by decide : Clear "let ").append hname).append
      (by decide))) (clearAll_append (ih hname) (clear_delivered hsink hname))
  | exprInto _ _ ih => exact fun hsink _ => ih hsink
  | exprLine _ _ _ hbefore ih =>
    exact fun _ _ => clearAll_append (clearAll_of_forall hbefore) (clearAll_cons
      (clear_line (Clear.append ih (by decide))) clearAll_nil)
  | exprText _ _ _ _ hbefore ih =>
    exact fun hsink _ => clearAll_append (clearAll_of_forall hbefore) (clear_delivered hsink ih)
  | ifElse _ ih =>
    refine fun hsink hfallback => ih hsink ?_
    split
    · decide
    · exact hfallback
  | @declared _ word _ _ target _ _ hword htarget _ _ ih =>
    have hwords : ∀ word ∈ ["let", "var", "const"], Clear word := by decide
    have hbound : Clear (boundText target) := by
      cases target with
      | name n => exact clear_name (htarget hS n List.mem_cons_self).1
      | tuple ns => exact clear_names fun n hn => (htarget hS n hn).1
    exact fun _ => ⟨clear_line ((((((hwords word hword).append (by decide)).append hbound).append
      (by decide)).append ih).append (by decide)), hbound⟩
  | reassign _ _ _ op _ _ _ ht hv hu =>
    exact fun _ =>
      ⟨clear_line ((clear_operator ht (by cases op <;> decide) hv).append (by decide)), hu⟩
  | function _ _ _ hn _ _ hts ih =>
    exact fun hfallback => ⟨clear_block (((((by decide : Clear "function ").append
      (clear_name (hn hS).1)).append (by decide)).append (clear_joinWith hts)).append (by decide))
      (ih trivial hfallback), hfallback⟩
  | @type _ _ _ _ types defaults hn htypes hnames _ hvalues =>
    have hfirst : Clear (fieldsText types) := by
      refine clear_fieldsText (fun field hfield => (htypes hS field hfield).1)
        fun field hfield => ?_
      obtain ⟨-, s, hs⟩ := htypes hS field hfield
      exact hs ▸ clear_quote s
    have hsecond : Clear (if defaults.isEmpty then "" else ", " ++ fieldsText defaults) := by
      split
      · decide
      · exact (by decide : Clear ", ").append (clear_fieldsText (hnames hS) hvalues)
    exact fun hfallback => ⟨clear_line ((((((by decide : Clear "const ").append
      (clear_name (hn hS).1)).append (by decide)).append hfirst).append hsecond).append
      (by decide)),
      hfallback⟩
  | forRange _ _ _ hn _ _ _ _ ha hb hupdate ih =>
    exact fun hfallback => ⟨clear_block (clear_rangeHead (clear_name (hn hS).1) ha hb hupdate)
      (ih trivial hfallback), hfallback⟩
  | forIn _ _ _ _ htarget ht ih =>
    exact fun hfallback => ⟨clear_block (((((by decide : Clear "for (const ").append htarget).append
      (by decide)).append ht).append (by decide)) (ih trivial hfallback), hfallback⟩
  | whileLoop _ _ _ ht ih =>
    exact fun hfallback =>
      ⟨clear_block (((by decide : Clear "while (").append ht).append (by decide))
      (ih trivial hfallback), hfallback⟩
  | retNone | breakLoop | continueLoop => exact fun hfallback => ⟨clear_line (by decide), hfallback⟩
  | ret _ _ _ ih =>
    exact fun hfallback => ⟨fun level => (((clear_indentation level).append (by decide)).append
      ih).append (by decide), hfallback⟩

/-! ## Programs -/

theorem mem_of_mem_sorted {names y} (h : y ∈ Text.sorted names) : y ∈ names := by
  unfold Text.sorted at h
  exact List.mem_eraseDups.mp ((List.mergeSort_perm _ _).mem_iff.mp h)

theorem clear_headerLine {names} (hnames : ∀ y ∈ names, isWord y = true) {part}
    (hpart : Clear part) : Clear (headerLine names part) := by
  have hopen : Clear (Text.indentation 1 ++ "const \x7b ") := by decide
  have hclose : Clear (" \x7d = " ++ contextParam ++ ".") := by decide
  unfold headerLine
  split
  · decide
  · have htext := (((hopen.append (clear_joinWith fun y hy => clear_of_isWord (hnames y hy))).append
      hclose).append hpart).append (b := ";\n") (by decide)
    simpa only [String.append_assoc] using htext

/-- The text of a state is clear if its statements are and the names referred to are words. -/
theorem clear_scriptText {g : Generator} (houtput : ClearAll g.output)
    (hwords : ∀ n ∈ g.referenced, isWord n = true) :
    Clear (scriptText g.freeSeries g.freeLibrary g.output) := by
  have hseries : ∀ y ∈ g.freeSeries, isWord y = true := by
    have hdata : ∀ y ∈ dataSeries, isWord y = true := by decide
    exact fun y hy => hdata y (List.mem_filter.mp hy).1
  have hlibrary : ∀ y ∈ g.freeLibrary, isWord y = true := by
    refine List.forall_mem_map.mpr fun n hn => isWord_bindingName (hwords n ?_)
    exact (List.mem_filter.mp (mem_of_mem_sorted (List.mem_filter.mp hn).1)).1
  exact ((((by decide : Clear ("(" ++ contextParam ++ ") => \x7b\n")).append
    (clear_headerLine hseries (by decide))).append (clear_headerLine hlibrary (by decide))).append
    (houtput 1)).append (by decide)

/-- No line of a lowered script starts a comment. -/
theorem clear_lower {program : Pine.Program} (h : AllValid (Pine.stmtLeaves program.body)) :
    Clear (lower program) := by
  let start : Generator :=
    { Generator.initial with
      declared := (declaredIn program.body).map (·.name) ++ []
      methods := ((declaredIn program.body).filter (·.method)).map (·.name) ++ []
      level := 1 }
  let S : Scene := ⟨[], start.methods, [], True⟩
  have hstart : S.Holds start := ⟨by simp [S], rfl, by simp [start, Generator.initial]⟩
  have hbody : FollowsBody S program.body := follows_body (follows_stmts program.body fun _ => h)
  obtain ⟨new, houtput, hstate, hnew⟩ := hbody.run .discard ifFallback hstart
  refine clear_scriptText ?_ fun n hn => ?_
  · exact houtput ▸ hnew.neat trivial trivial (by decide)
  · simpa [S] using hstate.referenced trivial n hn

end IndicatorCompiler.Lowering
