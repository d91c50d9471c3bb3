import IndicatorCompiler.Proofs.LiftedValues

/-!
# Names that emitted statements declare

A statement declares names if it begins with a word that says so; the names stand behind the word,
as far as the value, the parameters or the end of the statement.  `Emitted.names` reads them off the
text.  No expression begins with such a word, if its names are ones that a source can have, so a
statement declares the names of the indicator that it stands for, or a generated one, and nothing
else.
-/

namespace IndicatorCompiler.Lowering

open String (append_assoc toList_append singleton)

variable {name target word text : String} {c : Char}

open Pine
open Text (Rendered)

/-! ## Reading names off a text -/

/-- Words that begin a declaration. -/
def declaringWords : List String := ["let", "const", "var", "function"]

/-- The word at the beginning of a text. -/
def leadingWord (text : String) : String :=
  String.ofList (text.toList.takeWhile Script.continuesName)

/-- The runs of name characters in a text that goes on behind `run`. -/
def runsFrom (run : List Char) : List Char → List (List Char)
  | [] => if run = [] then [] else [run]
  | c :: rest =>
    if Script.continuesName c then runsFrom (run ++ [c]) rest
    else if run = [] then runsFrom [] rest else run :: runsFrom [] rest

/-- The character ends the names of a declaration. -/
def endsNames (c : Char) : Bool := c == '=' || c == ';' || c == '('

/-- The names that a text declares. -/
def lineNames (text : String) : List String :=
  if leadingWord text ∈ declaringWords then
    (runsFrom [] ((text.toList.dropWhile Script.continuesName).takeWhile (!endsNames ·))).map
    String.ofList
  else []

/-- The names that a statement declares in the block that it stands in. -/
def Emitted.names : Emitted → List String
  | .line text => lineNames text
  | .block head _ => lineNames head
  | _ => []

/-! ## Texts that declare names -/

/-- A text of name characters, and of at least one. -/
def IsRun (name : String) : Prop :=
  name.toList ≠ [] ∧ ∀ c ∈ name.toList, Script.continuesName c = true

theorem isRun_of_isWord (h : isWord name = true) : IsRun name := by
  have hcontinues (c : Char) (hc : Pine.continuesName c = true) :
      Script.continuesName c = true := by
    simp only [Pine.continuesName, Script.continuesName, Bool.or_eq_true] at hc ⊢
    exact .inl hc
  have hstarts (c : Char) (hc : Pine.startsName c = true) : Script.continuesName c = true := by
    simp only [Pine.startsName, Script.continuesName, Char.isAlphanum, Bool.or_eq_true] at hc ⊢
    exact .inl (hc.imp_left .inl)
  unfold isWord at h
  split at h
  · cases h
  · rename_i c rest htext
    rw [Bool.and_eq_true, List.all_eq_true] at h
    rw [IsRun, htext]
    exact ⟨List.cons_ne_nil _ _,
      List.forall_mem_cons.mpr ⟨hstarts c h.1, fun x hx => hcontinues x (h.2 x hx)⟩⟩

theorem isRun_bindingName (h : IsIdentifier name) : IsRun (bindingName name) :=
  isRun_of_isWord (isWord_bindingName h.1)

theorem runsFrom_append {run name rest} (h : ∀ c ∈ name, Script.continuesName c = true) :
    runsFrom run (name ++ rest) = runsFrom (run ++ name) rest := by
  induction name generalizing run with
  | nil => simp
  | cons c name ih =>
    obtain ⟨hc, hname⟩ := List.forall_mem_cons.mp h
    rw [List.cons_append, runsFrom, if_pos hc, ih hname, List.append_assoc, List.singleton_append]

/-- A name with something behind it that belongs to no name. -/
theorem runsFrom_name (h : IsRun name) (hc : Script.continuesName c = false)
    (rest : List Char) :
    runsFrom [] (name.toList ++ c :: rest) = name.toList :: runsFrom [] rest := by
  rw [runsFrom_append h.2, List.nil_append, runsFrom, if_neg (by simp [hc]), if_neg h.1]

theorem runsFrom_skip (hc : Script.continuesName c = false) (rest : List Char) :
    runsFrom [] (c :: rest) = runsFrom [] rest := by
  rw [runsFrom, if_neg (by simp [hc]), if_pos rfl]

theorem runsFrom_joinWith {names} (h : ∀ name ∈ names, IsRun name)
    (hc : Script.continuesName c = false) (rest : List Char) :
    runsFrom [] ((Text.joinWith ", " names).toList ++ c :: rest) =
      names.map String.toList ++ runsFrom [] rest := by
  induction names with
  | nil => exact runsFrom_skip hc rest
  | cons name names ih =>
    obtain ⟨hname, hnames⟩ := List.forall_mem_cons.mp h
    cases names with
    | nil => exact runsFrom_name hname hc rest
    | cons next names =>
      have htext : (Text.joinWith ", " (name :: next :: names)).toList ++ c :: rest =
          name.toList ++ ',' :: ' ' ::
          ((Text.joinWith ", " (next :: names)).toList ++ c :: rest) := by
        simp [Text.joinWith, toList_append]
      rw [htext, runsFrom_name hname rfl, runsFrom_skip rfl, ih hnames]
      rfl

theorem runsFrom_binder {names} (h : Binder names target) (hc : Script.continuesName c = false)
    (rest : List Char) :
    runsFrom [] (target.toList ++ c :: rest) = names.map String.toList ++ runsFrom [] rest := by
  cases h with
  | name hname => exact runsFrom_name (isRun_of_isWord hname) hc rest
  | tuple hnames =>
    have htext : (tupleText names).toList ++ c :: rest =
        '[' :: ((Text.joinWith ", " names).toList ++ ']' :: c :: rest) := by
      simp [tupleText, toList_append]
    rw [htext, runsFrom_skip (by decide),
      runsFrom_joinWith (fun y hy => isRun_of_isWord (hnames y hy)) (by decide), runsFrom_skip hc]

theorem not_endsNames_run (h : IsRun name) : ∀ c ∈ name.toList, endsNames c = false := by
  intro c hc
  by_contra hends
  simp only [endsNames, Bool.not_eq_false, Bool.or_eq_true, beq_iff_eq] at hends
  have hcontinues := h.2 c hc
  rcases hends with (rfl | rfl) | rfl <;> exact absurd hcontinues (by decide)

theorem not_endsNames_joinWith {names} (h : ∀ name ∈ names, IsRun name) :
    ∀ c ∈ (Text.joinWith ", " names).toList, endsNames c = false := by
  induction names with
  | nil => simp [Text.joinWith]
  | cons name names ih =>
    obtain ⟨hname, hnames⟩ := List.forall_mem_cons.mp h
    cases names with
    | nil => exact not_endsNames_run hname
    | cons next names =>
      simp only [Text.joinWith, toList_append, List.forall_mem_append]
      exact ⟨⟨not_endsNames_run hname, by simp [endsNames]⟩, ih hnames⟩

theorem not_endsNames_binder {names} (h : Binder names target) :
    ∀ c ∈ target.toList, endsNames c = false := by
  cases h with
  | name hname => exact not_endsNames_run (isRun_of_isWord hname)
  | tuple hnames =>
    simp only [tupleText, toList_append, List.forall_mem_append]
    exact ⟨⟨by simp [endsNames], not_endsNames_joinWith fun y hy => isRun_of_isWord (hnames y hy)⟩,
      by simp [endsNames]⟩

/-- The names stand between the word and what ends them. -/
theorem lineNames_declaring {middle rest stop names} (hword : word ∈ declaringWords)
    (hmiddle : ∀ c ∈ middle.toList, endsNames c = false) (hstop : endsNames stop = true)
    (hruns : runsFrom [] middle.toList = names.map String.toList) :
    lineNames (word ++ (" " ++ (middle ++ (singleton stop ++ rest)))) = names := by
  have hname : ∀ c ∈ word.toList, Script.continuesName c = true := by
    have hall : ∀ word ∈ declaringWords, word.toList.all Script.continuesName = true := by decide
    exact List.all_eq_true.mp (hall word hword)
  have htext : (word ++ (" " ++ (middle ++ (singleton stop ++ rest)))).toList =
      word.toList ++ ' ' :: (middle.toList ++ stop :: rest.toList) := by
    simp [toList_append]
  have hlead :
      leadingWord (word ++ (" " ++ (middle ++ (singleton stop ++ rest)))) = word := by
    rw [leadingWord, htext, List.takeWhile_append_of_pos hname,
      List.takeWhile_cons_of_neg (by decide), List.append_nil, String.ofList_toList]
  have hhead : ((' ' :: (middle.toList ++ stop :: rest.toList)).takeWhile (!endsNames ·)) =
      ' ' :: middle.toList := by
    rw [List.takeWhile_cons_of_pos (by decide),
      List.takeWhile_append_of_pos (by simpa using hmiddle),
      List.takeWhile_cons_of_neg (by simp [hstop]), List.append_nil]
  rw [lineNames, hlead, if_pos hword, htext, List.dropWhile_append_of_pos hname,
    List.dropWhile_cons_of_neg (by decide), hhead, runsFrom_skip (by decide), hruns, List.map_map]
  simp [Function.comp_def]

theorem lineNames_binder {names} (hword : word ∈ declaringWords) (h : Binder names target)
    (rest : String) : lineNames (word ++ " " ++ target ++ " = " ++ rest) = names := by
  have htext : word ++ " " ++ target ++ " = " ++ rest =
      word ++ (" " ++ ((target ++ " ") ++ (singleton '=' ++ (" " ++ rest)))) := by
    rw [show " = " = " " ++ (singleton '=' ++ " ") from rfl]
    simp only [append_assoc]
  rw [htext]
  refine lineNames_declaring hword ?_ (by decide) ?_
  · rw [toList_append, List.forall_mem_append]
    exact ⟨not_endsNames_binder h, by simp [endsNames]⟩
  · rw [toList_append, show " ".toList = [' '] from rfl, runsFrom_binder h (by decide)]
    exact List.append_nil _

/-- A name with the end of the statement, or with parameters, behind it. -/
theorem lineNames_name (hword : word ∈ declaringWords) (h : IsRun name)
    (stop : Char) (hstop : endsNames stop = true) (rest : String) :
    lineNames (word ++ " " ++ name ++ (singleton stop ++ rest)) = [name] := by
  rw [append_assoc, append_assoc]
  refine lineNames_declaring hword (not_endsNames_run h) hstop ?_
  rw [← List.append_nil name.toList, runsFrom_append h.2, List.nil_append, runsFrom, if_neg h.1]
  rfl

theorem lineNames_let (h : IsRun name) : lineNames ("let " ++ name ++ ";") = [name] := by
  have hnames := lineNames_name (show "let" ∈ declaringWords by decide) h ';' (by decide) ""
  rwa [show "let" ++ " " = "let " from rfl, show singleton ';' ++ "" =
    ";" from rfl] at hnames

theorem lineNames_function (h : IsRun name) (rest : String) :
    lineNames ("function " ++ name ++ "(" ++ rest) = [name] := by
  have hnames := lineNames_name (show "function" ∈ declaringWords by decide) h '(' (by decide) rest
  rwa [show "function" ++ " " = "function " from rfl, ← append_assoc,
    show singleton '(' = "(" from rfl] at hnames

/-! ## Texts that declare none -/

/-- The text begins with no word that declares names. -/
def Leads (text : String) : Prop := leadingWord text ∉ declaringWords

instance (text : String) : Decidable (Leads text) := inferInstanceAs (Decidable (_ ∉ _))

theorem Leads.lineNames (h : Leads text) : Lowering.lineNames text = [] := if_neg h

theorem leads_of_head (hhead : text.toList.head? = some c)
    (hc : ∀ word ∈ declaringWords, word.toList.head? ≠ some c) : Leads text := by
  obtain ⟨rest, htext⟩ := List.head?_eq_some_iff.mp hhead
  intro hword
  refine hc _ hword ?_
  rw [leadingWord, String.toList_ofList, htext]
  by_cases hname : Script.continuesName c = true
  · rw [List.takeWhile_cons_of_pos hname, List.head?_cons]
  · rw [leadingWord, htext, List.takeWhile_cons_of_neg hname] at hword
    exact absurd hword (by decide)

/-- What stands behind the text does not make its first word longer. -/
theorem Leads.append {rest} (h : Leads text)
    (hrest : ∀ c ∈ rest.toList.head?, Script.continuesName c = false) : Leads (text ++ rest) := by
  have hnone : rest.toList.takeWhile Script.continuesName = [] := by
    cases hlist : rest.toList with
    | nil => rfl
    | cons c _ => exact List.takeWhile_cons_of_neg (by simp [hrest c (by simp [hlist])])
  have hlead : leadingWord (text ++ rest) = leadingWord text := by
    rw [leadingWord, leadingWord, toList_append, List.takeWhile_append, hnone]
    split
    · rename_i hall
      rw [List.append_nil, (List.takeWhile_prefix Script.continuesName).eq_of_length hall]
    · rfl
  rwa [Leads, hlead]

/-- What stands behind a text that goes on after its first word makes no difference. -/
theorem Leads.begins (h : Leads text)
    (htext : text.toList.any (!Script.continuesName ·) = true) (rest : String) :
    Leads (text ++ rest) := by
  have hlead : leadingWord (text ++ rest) = leadingWord text := by
    rw [leadingWord, leadingWord, toList_append, List.takeWhile_append, if_neg]
    intro hall
    have heq := (List.takeWhile_prefix Script.continuesName).eq_of_length hall
    obtain ⟨c, hc, hcontinues⟩ := List.any_eq_true.mp htext
    have := List.takeWhile_eq_self_iff.mp heq c hc
    simp [this] at hcontinues
  rwa [Leads, hlead]

theorem Leads.within {r : Rendered} (h : Leads r.text) (least : Nat) : Leads (r.within least) := by
  unfold Rendered.within
  split
  · exact leads_of_head (c := '(') (by simp [Rendered.enclosed]) (by decide)
  · exact h

/-- A name of an indicator is not bound under a word that declares. -/
theorem leads_bindingName (h : IsIdentifier name) : Leads (bindingName name) := by
  have hkeyword (k : Keyword) : name ≠ k.text := by
    rintro rfl
    exact absurd (h.2.symm.trans (Keyword.ofWord?_text k)) (by simp)
  have hlead : leadingWord (bindingName name) = bindingName name := by
    rw [leadingWord, List.takeWhile_eq_self_iff.mpr (isRun_bindingName h).2, String.ofList_toList]
  rw [Leads, hlead, bindingName]
  split
  · intro hword
    have hlast : ∀ word ∈ declaringWords, word.toList.getLast? ≠ some '_' := by decide
    exact hlast _ hword (by simp [toList_append])
  · rename_i hreserved
    intro hword
    simp only [declaringWords, List.mem_cons, List.not_mem_nil, or_false] at hword
    rcases hword with rfl | rfl | rfl | rfl
    · exact hreserved (by decide)
    · exact hkeyword .constWord rfl
    · exact hkeyword .varWord rfl
    · exact hreserved (by decide)

theorem leads_of_digit (hhead : text.toList.head? = some c) (hc : c.isDigit = true) :
    Leads text := by
  refine leads_of_head hhead fun word hword hword' => ?_
  have hdigit : ∀ word ∈ declaringWords, word.toList.head?.any Char.isDigit = false := by decide
  exact absurd (hdigit word hword) (by simp [hword', hc])

theorem leads_nat (n : Nat) : Leads (toString n) := by
  have htext : (toString n).toList = Nat.toDigits 10 n := by
    rw [Nat.toString_eq_repr, Nat.toList_repr]
  obtain ⟨c, rest, hdigits⟩ := List.exists_cons_of_ne_nil (Nat.toDigits_ne_nil (n := n) (b := 10))
  refine leads_of_digit (c := c) (by rw [htext, hdigits, List.head?_cons]) ?_
  exact Nat.isDigit_of_mem_toDigits (by decide) (by decide) (hdigits ▸ List.mem_cons_self)

theorem leads_magnitude (x : Number.Magnitude) : Leads x.digits.positional := by
  obtain ⟨whole, fraction, htext, hne, hwhole, -⟩ := x.positional_spec
  obtain ⟨c, rest, rfl⟩ := List.exists_cons_of_ne_nil hne
  exact leads_of_digit (by rw [htext, Number.numeral, List.cons_append, List.head?_cons])
    (hwhole c List.mem_cons_self)

theorem leads_literal (value : Number.Double) : Leads value.literal := by
  cases value with
  | finite negative x =>
    cases negative with
    | true =>
      change Leads ("-" ++ x.digits.positional)
      exact leads_of_head (c := '-') (by simp) (by decide)
    | false => exact leads_magnitude x
  | infinite negative => cases negative <;> decide
  | nan => decide

theorem leads_signed (op : UnaryOp) (t : String) : Leads (signed op t) := by
  have hsign : ∀ word ∈ declaringWords, word.toList.head? ≠ some (unarySign op) := by
    cases op <;> decide
  exact leads_of_head (by simp [signed, Char.toString]) hsign

theorem leads_quote (s : String) : Leads (Text.quote s) :=
  leads_of_head (c := '"') (by simp [Text.quote]) (by decide)

theorem leads_calledText (level : Nat) (body : List Emitted) : Leads (calledText level body) :=
  leads_of_head (c := '(') (by simp [calledText]) (by decide)

theorem leads_fresh (k : Nat) : Leads (switchStem ++ toString k) :=
  leads_of_head (c := '_') (by simp [switchStem]) (by decide)

/-! ## Expressions declare no names -/

/-- A text that the outcome has begins with no word that declares. -/
def Leading : Outcome → Prop
  | .text _ r => Leads r.text
  | .phrase t | .value _ t => Leads t
  | .choices _ last t => Leads last → Leads t
  | _ => True

/-- No expression begins with a word that declares. -/
theorem Emits.leads {S : Scene} (hS : S.valid) (hmethods : ∀ m ∈ S.methods, IsIdentifier m)
    {outcome} (h : Emits S outcome) : Leading outcome := by
  induction h with
  | ident h | name h => exact leads_bindingName (h hS)
  | int n => exact leads_nat n
  | float => exact leads_literal _
  | str s | color s => exact leads_quote s
  | bool b =>
    change Leads (if b then "true" else "false")
    cases b <;> decide
  | na => exact (by decide : Leads "NaN")
  | unary op => exact leads_signed op _
  | binary _ _ _ _ _ ih _ | ternary _ _ _ _ ih _ _ | call _ _ _ _ _ _ _ ih _ _
  | history _ _ _ _ ih _
  | member _ _ _ ih | point _ _ ih =>
    simp only [Leading, append_assoc]
    exact Leads.append ih (by simp; decide)
  | tuple => exact leads_of_head (c := '[') (by simp) (by decide)
  | called level => exact leads_calledText level _
  | ternaries _ _ _ hlast ih => exact ih hlast
  | within _ n ih | single _ _ ih => exact Leads.within ih _
  | names => exact leads_of_head (c := '[') (by simp [tupleText]) (by decide)
  | method hmem => exact leads_bindingName (hmethods _ hmem)
  | fresh k => exact leads_fresh k
  | @construct types t _ ih =>
    obtain ⟨new, hnew⟩ : ∃ new, constructorText t types = t ++ ("." ++ new) := by
      unfold constructorText
      split
      · split
        · exact ⟨"new_" ++ _, by rw [append_assoc, show ".new_" = "." ++ "new_" from rfl,
            append_assoc]⟩
        · exact ⟨"new", rfl⟩
      · exact ⟨"new", rfl⟩
    rw [Leading, hnew]
    exact Leads.append ih (by simp; decide)
  | joined hs _ _ ih _ =>
    simp only [List.mem_cons, List.not_mem_nil, or_false] at hs
    simp only [Leading, append_assoc]
    rcases hs with rfl | rfl <;> exact Leads.append ih (by simp; decide)
  | entries _ ih => exact Leads.append ih (by simp; decide)
  | step hs =>
    have hsign : ∀ s ∈ ["--", "++"], Leads s := by decide
    exact hsign _ hs
  | amount hs =>
    simp only [List.mem_cons, List.not_mem_nil, or_false] at hs
    rcases hs with rfl | rfl <;> exact leads_of_head (c := ' ') (by simp) (by decide)
  | literal x => exact leads_literal _
  | absolute => exact leads_of_head (c := 'M') (by simp) (by decide)
  | unmatched => exact (by decide : Leads "undefined")
  | none => exact id
  | either _ _ _ ih _ _ =>
    intro _
    simp only [append_assoc]
    exact Leads.append ih (by simp; decide)
  | _ => trivial

end IndicatorCompiler.Lowering
