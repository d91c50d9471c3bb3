import IndicatorCompiler.CommandLine.Run

/-!
# What runs leave behind

A run that fails prints nothing to standard output and writes no file.  A run that writes a file
prints nothing, and writes what it would have printed without the option that names the file.

Arguments are read phrase by phrase: an option together with the value behind it, or any other
argument on its own.  So an option can be left out with its value, and the arguments around it are
read as before.
-/

namespace IndicatorCompiler.CommandLine

variable {arg : String} {phrase args : List String}
  {f : Settings → Except UsageError (Option Settings)} {s t : Settings} {invocation : Invocation}

/-! ## Phrases -/

/-- The flag that an argument is written with, and the value joined to it. -/
def option? (arg : String) : Option (FlagEntry × Option String) :=
  if isInput arg then none else (flag? (splitValue arg).1).map (·, (splitValue arg).2)

/-- The argument behind this one is its value. -/
def takesNext (arg : String) : Bool :=
  (option? arg).any fun (entry, joined) => entry.value.isSome && joined.isNone

/-- Arguments, each together with the value that it takes. -/
def phrases : List String → List (List String)
  | [] => []
  | arg :: rest =>
    if takesNext arg then
      match rest with
      | [] => [[arg]]
      | value :: rest => [arg, value] :: phrases rest
    else [arg] :: phrases rest

theorem flatten_phrases (args : List String) : (phrases args).flatten = args := by
  fun_induction phrases args with
  | case1 => rfl
  | case2 => rfl
  | case3 arg _ value rest ih | case4 arg rest _ ih => simp [ih]

theorem phrases_alone (h : takesNext arg = false) (rest : List String) :
    phrases (arg :: rest) = [arg] :: phrases rest := by
  rw [phrases.eq_def]
  simp [h]

theorem phrases_pair (h : takesNext arg = true) (value : String) (rest : List String) :
    phrases (arg :: value :: rest) = [arg, value] :: phrases rest := by
  rw [phrases.eq_def]
  simp [h]

/-- The phrase names the file to write. -/
def namesOutput (phrase : List String) : Bool :=
  (phrase.head?.bind option?).any (·.1.flag == .output)

/-- The arguments without the options that name the file to write. -/
def withoutOutput (args : List String) : List String :=
  ((phrases args).filter fun phrase => !namesOutput phrase).flatten

/-! ## Reading a phrase -/

/-- The same settings, but the result is printed. -/
def Settings.printing (s : Settings) : Settings := { s with output := none }

/-- A well-formed phrase, and what it makes of settings. -/
inductive Phrase : List String → (Settings → Except UsageError (Option Settings)) → Prop
  | input {arg : String} (h : isInput arg = true) : Phrase [arg] fun s => some <$> s.withInput arg
  | alone {arg entry} (h : option? arg = some (entry, none)) (hvalue : entry.value = none) :
    Phrase [arg] (·.withFlag entry.flag "")
  | joined {arg value placeholder entry} (h : option? arg = some (entry, some value))
      (hvalue : entry.value = some placeholder) : Phrase [arg] (·.withFlag entry.flag value)
  | behind {arg value placeholder entry} (h : option? arg = some (entry, none))
      (hvalue : entry.value = some placeholder) : Phrase [arg, value] (·.withFlag entry.flag value)

/-- Read on behind a phrase, unless it asks for help. -/
def readBehind (rest : List String) : Option Settings → Except UsageError (Option Settings)
  | none => .ok none
  | some s => readArgs s rest

theorem option?_eq_some {entry joined} (h : option? arg = some (entry, joined)) :
    isInput arg = false ∧ flag? (splitValue arg).1 = some entry ∧ (splitValue arg).2 = joined := by
  unfold option? at h
  split at h
  · cases h
  · rename_i hinput
    obtain ⟨found, hflag, heq⟩ := Option.map_eq_some_iff.mp h
    cases heq
    exact ⟨by simpa using hinput, hflag, rfl⟩

/-- A phrase is read in front of any arguments as it is read alone. -/
theorem Phrase.readArgs_append (h : Phrase phrase f) (s : Settings)
    (rest : List String) : readArgs s (phrase ++ rest) = f s >>= readBehind rest := by
  cases h with
  | input h =>
    rw [List.singleton_append, readArgs.eq_def]
    simp only [h, if_true]
    cases s.withInput _ <;> rfl
  | alone h hvalue | joined h hvalue | behind h hvalue =>
    obtain ⟨hinput, hflag, hjoined⟩ := option?_eq_some h
    rw [readArgs.eq_def]
    simp only [List.cons_append, List.nil_append, hinput, hflag, hjoined, hvalue]
    rcases s.withFlag _ _ with e | _ | s <;> rfl

/-- Arguments that are read to the end start with a well-formed phrase. -/
theorem exists_phrase {rest : List String} (h : readArgs s (arg :: rest) = .ok (some t)) :
    ∃ phrase f more, Phrase phrase f ∧ phrases (arg :: rest) = phrase :: phrases more := by
  cases hinput : isInput arg with
  | true =>
    have hnext : takesNext arg = false := by simp [takesNext, option?, hinput]
    exact ⟨[arg], _, rest, .input hinput, phrases_alone hnext rest⟩
  | false =>
    cases hflag : flag? (splitValue arg).1 with
    | none =>
      rw [readArgs.eq_def] at h
      simp [hinput, hflag] at h
    | some entry =>
      have hoption : option? arg = some (entry, (splitValue arg).2) := by
        simp [option?, hinput, hflag]
      cases hjoined : (splitValue arg).2 with
      | none =>
        rw [hjoined] at hoption
        cases hvalue : entry.value with
        | none =>
          have hnext : takesNext arg = false := by simp [takesNext, hoption, hvalue]
          exact ⟨[arg], _, rest, .alone hoption hvalue, phrases_alone hnext rest⟩
        | some placeholder =>
          have hnext : takesNext arg = true := by simp [takesNext, hoption, hvalue]
          cases rest with
          | nil =>
            rw [readArgs.eq_def] at h
            simp [hinput, hflag, hjoined, hvalue] at h
          | cons value rest =>
            exact ⟨[arg, value], _, rest, .behind hoption hvalue, phrases_pair hnext value rest⟩
      | some value =>
        rw [hjoined] at hoption
        cases hvalue : entry.value with
        | none =>
          rw [readArgs.eq_def] at h
          simp [hinput, hflag, hjoined, hvalue] at h
        | some placeholder =>
          have hnext : takesNext arg = false := by simp [takesNext, hoption]
          exact ⟨[arg], _, rest, .joined hoption hvalue, phrases_alone hnext rest⟩

theorem Settings.withInput_printing (h : s.withInput arg = .ok t) :
    s.printing.withInput arg = .ok t.printing := by
  unfold withInput at h ⊢
  split at h <;> cases h
  rename_i hinput
  exact if_neg hinput

/-- Only the flag that names the file to write has to do with it. -/
theorem Settings.withFlag_printing {flag value} (h : s.withFlag flag value = .ok (some t)) :
    if flag = .output then t.printing = s.printing
    else s.printing.withFlag flag value = .ok (some t.printing) := by
  cases flag with
  | output => cases h; rfl
  | help => cases h
  | debug | lineNumbers => cases h; rfl
  | expectVersion =>
    simp only [reduceCtorEq, if_false, withFlag, withVersion] at h ⊢
    split at h <;> cases h
    rfl
  | pine | script =>
    simp only [reduceCtorEq, if_false, withFlag, withLanguage] at h ⊢
    split at h <;> cases h
    rename_i hlanguage
    simp only [printing, hlanguage]
    rfl
  | emitStage1 | emitTokens | emitTree =>
    simp only [reduceCtorEq, if_false, withFlag, withEmit] at h ⊢
    split at h <;> cases h
    rename_i hemit
    simp only [printing, hemit]
    rfl

/-- A phrase that does not name the file to write is read alike whatever the file is. -/
theorem Phrase.printing (h : Phrase phrase f) (hf : f s = .ok (some t)) :
    if namesOutput phrase then t.printing = s.printing
      else f s.printing = .ok (some t.printing) := by
  have flagged {entry : FlagEntry} {joined : Option String} {arg : String} {more : List String}
      (hoption : option? arg = some (entry, joined)) :
      namesOutput (arg :: more) = true ↔ entry.flag = .output := by
    simp [namesOutput, hoption]
  cases h with
  | @input arg hinput =>
    have hnot : namesOutput [arg] = false := by simp [namesOutput, option?, hinput]
    change some <$> s.withInput arg = .ok (some t) at hf
    cases hread : s.withInput arg with
    | error e => rw [hread] at hf; cases hf
    | ok t' =>
      rw [hread] at hf
      cases hf
      change if namesOutput [arg] then _ else some <$> s.printing.withInput arg = _
      rw [hnot, if_neg (by simp), Settings.withInput_printing hread]
      rfl
  | alone hoption | joined hoption
  | behind hoption => simpa [flagged hoption] using Settings.withFlag_printing hf

/-! ## Leaving the option out -/

theorem readBehind_eq_ok {x rest} (h : x >>= readBehind rest = .ok (some t)) :
    ∃ s, x = .ok (some s) ∧ readArgs s rest = .ok (some t) := by
  rcases x with e | _ | s
  · cases h
  · cases h
  · exact ⟨s, rfl, h⟩

theorem Phrase.ne_nil (h : Phrase phrase f) : phrase ≠ [] := by cases h <;> simp

/-- Without the options that name the file to write, arguments ask for the same, but printed. -/
theorem readArgs_withoutOutput (h : readArgs s args = .ok (some t)) :
    readArgs s.printing (withoutOutput args) = .ok (some t.printing) := by
  -- phrase by phrase from the left, with the settings that the phrases before have made
  induction hlength : args.length using Nat.strongRecOn generalizing s args with
  | ind n ih =>
    cases args with
    | nil => cases h; rfl
    | cons arg rest =>
      obtain ⟨phrase, f, more, hphrase, hphrases⟩ := exists_phrase h
      have hargs : arg :: rest = phrase ++ more := by
        rw [← flatten_phrases (arg :: rest), hphrases, List.flatten_cons, flatten_phrases]
      rw [hargs, hphrase.readArgs_append] at h
      obtain ⟨s', hf, hmore⟩ := readBehind_eq_ok h
      have hshorter : more.length < n := by
        have hpos := List.length_pos_iff.mpr hphrase.ne_nil
        rw [← hlength, hargs, List.length_append]
        omega
      have hrest := ih more.length hshorter hmore rfl
      have hprinting := hphrase.printing hf
      cases hout : namesOutput phrase with
      | true =>
        rw [hout, if_pos rfl] at hprinting
        rw [hprinting] at hrest
        simpa [withoutOutput, hphrases, hout] using hrest
      | false =>
        rw [hout, if_neg (by simp)] at hprinting
        have hskip : withoutOutput (arg :: rest) = phrase ++ withoutOutput more := by
          simp [withoutOutput, hphrases, hout]
        rw [hskip, hphrase.readArgs_append, hprinting]
        exact hrest

/-- The same invocation, but its result is printed. -/
def Invocation.printing (invocation : Invocation) : Invocation := { invocation with output := none }

theorem Settings.invocation_printing (s : Settings) :
    s.printing.invocation = s.invocation.map Invocation.printing := by
  rcases s with ⟨_ | input, output, emit, language, version, lineNumbers⟩
  · rfl
  · rcases emit with _ | _ | _ | _ | _ <;> rcases language with _ | _ | _ | _ <;> rfl

theorem parseArgs_eq_ok : parseArgs args = .ok (some invocation) ↔
      ∃ s, readArgs .initial args = .ok (some s) ∧ s.invocation = .ok invocation := by
  unfold parseArgs
  rcases readArgs .initial args with e | _ | s
  · simp [bind, Except.bind]
  · simp [bind, Except.bind, pure, Except.pure]
  · cases hs : s.invocation <;> simp [bind, Except.bind, pure, Except.pure, hs]

theorem parseArgs_withoutOutput (h : parseArgs args = .ok (some invocation)) :
    parseArgs (withoutOutput args) = .ok (some invocation.printing) := by
  obtain ⟨s, hread, hs⟩ := parseArgs_eq_ok.mp h
  refine parseArgs_eq_ok.mpr ⟨s.printing, readArgs_withoutOutput hread, ?_⟩
  rw [Settings.invocation_printing, hs]
  rfl

/-! ## Whole runs -/

theorem start_eq_run_iff :
    start args = .run invocation ↔ parseArgs args = .ok (some invocation) := by
  unfold start
  cases args with
  | nil =>
    have hmissing : parseArgs [] = .error .missingInput := rfl
    simp [hmissing]
  | cons arg rest => rcases parseArgs (arg :: rest) with e | _ | found <;> simp

/-- A failed run, which leaves nothing behind. -/
structure Outcome.Fails (outcome : Outcome) : Prop where
  exitCode : outcome.exitCode ≠ 0
  stdout : outcome.stdout = ""
  written : outcome.written = none

theorem fails_rejected (stderr : String) : (Outcome.rejected stderr).Fails :=
  ⟨Nat.succ_ne_zero _, rfl, rfl⟩

theorem fails_usageFault (stderr : String) : (Outcome.usageFault stderr).Fails :=
  ⟨Nat.succ_ne_zero _, rfl, rfl⟩

theorem fails_internalFault (stderr : String) : (Outcome.internalFault stderr).Fails :=
  ⟨Nat.succ_ne_zero _, rfl, rfl⟩

theorem fails_compileFault (file source : String) (e : CompileError) :
    (compileFault file source e).Fails := by
  unfold compileFault
  split
  · exact fails_internalFault _
  · exact fails_rejected _

/-- Every way to produce no result is a failure. -/
theorem fails_of_produce {source outcome} (h : produce invocation source = .error outcome) :
    outcome.Fails := by
  unfold produce at h
  simp only at h
  split at h
  · split at h <;> cases h
    exact fails_rejected _
  · split at h <;> cases h
    exact fails_rejected _
  · split at h
    · cases h
      exact fails_compileFault _ _ _
    · split at h <;> cases h
      exact fails_usageFault _
  · split at h <;> cases h
    exact fails_compileFault _ _ _

/-- A run that goes as far as its invocation fails, or produces a text that is printed or
written. -/
theorem runInvocation_cases (host : Host) (invocation : Invocation) :
    (runInvocation host invocation).Fails ∨ ∃ source text,
      host.source invocation.input = .ok source ∧ produce invocation source = .ok text ∧
        runInvocation host invocation = success invocation.output text := by
  cases hsource : host.source invocation.input with
  | error e =>
    refine .inl ?_
    simp only [runInvocation, hsource]
    exact fails_usageFault _
  | ok source =>
    cases hproduce : produce invocation source with
    | error outcome =>
      refine .inl ?_
      simp only [runInvocation, hsource, hproduce]
      exact fails_of_produce hproduce
    | ok text =>
      simp only [runInvocation, hsource, hproduce]
      split
      · exact .inl (fails_rejected _)
      · exact .inr ⟨source, text, rfl, hproduce, rfl⟩

/-- What an invocation produces does not depend on where it goes. -/
theorem runInvocation_printing {host source text}
    (hsource : host.source invocation.input = .ok source)
    (hproduce : produce invocation source = .ok text) :
    runInvocation host invocation.printing = ⟨0, text, "", none⟩ := by
  have hsame : produce invocation.printing source = .ok text := hproduce
  simp only [runInvocation, Invocation.printing, hsource] at hsame ⊢
  rw [hsame]
  rfl

/-- A run that does not go as far as an invocation fails, or only shows the help text. -/
theorem start_eq_finished {outcome} (h : start args = .finished outcome) :
    outcome.Fails ∨ outcome = ⟨0, "", usage, none⟩ := by
  unfold start at h
  split at h
  · cases h
    exact .inl (fails_usageFault _)
  · split at h <;> cases h
    · exact .inl (fails_usageFault _)
    · exact .inr rfl

/-- A run fails, shows the help text, or ends with the result of its invocation. -/
theorem run_cases (host : Host) (args : List String) :
    (run host args).Fails ∨ run host args = ⟨0, "", usage, none⟩ ∨ ∃ invocation source text,
      parseArgs args = .ok (some invocation) ∧ host.source invocation.input = .ok source ∧
        produce invocation source = .ok text ∧ run host args = success invocation.output text := by
  cases hstart : start args with
  | finished outcome =>
    have hrun : run host args = outcome := by simp only [run, hstart]
    rw [hrun]
    exact (start_eq_finished hstart).imp_right .inl
  | run invocation =>
    have hrun : run host args = runInvocation host invocation := by simp only [run, hstart]
    rw [hrun]
    rcases runInvocation_cases host invocation with hfails | ⟨source, text, hsource, hproduce, heq⟩
    · exact .inl hfails
    · exact .inr (.inr ⟨invocation, source, text, start_eq_run_iff.mp hstart, hsource,
        hproduce, heq⟩)

/-- A run that fails prints nothing and writes no file.  A run that writes a file prints nothing,
and without the option that names the file it prints what it writes. -/
theorem run_leaves_result_only (host : Host) (args : List String) :
    ((run host args).exitCode ≠ 0 → (run host args).stdout = "" ∧ (run host args).written = none) ∧
      ∀ file text, (run host args).exitCode = 0 → (run host args).written = some (file, text) →
        (run host args).stdout = "" ∧ run host (withoutOutput args) = ⟨0, text, "", none⟩ := by
  rcases run_cases host args with
    hfails | hhelp | ⟨invocation, source, text, hargs, hsource, hproduce, hrun⟩
  · refine ⟨fun _ => ⟨hfails.stdout, hfails.written⟩, fun file text hcode => ?_⟩
    exact absurd hcode hfails.exitCode
  · rw [hhelp]
    exact ⟨fun hcode => absurd rfl hcode, fun file text _ hwritten => by cases hwritten⟩
  · rw [hrun]
    cases houtput : invocation.output with
    | none => exact ⟨fun hcode => absurd rfl hcode, fun file text _ hwritten => by cases hwritten⟩
    | some file =>
      refine ⟨fun hcode => absurd rfl hcode, fun file' text' _ hwritten => ?_⟩
      cases hwritten
      have hstart : start (withoutOutput args) = .run invocation.printing :=
        start_eq_run_iff.mpr (parseArgs_withoutOutput hargs)
      refine ⟨rfl, ?_⟩
      simp only [run, hstart]
      exact runInvocation_printing hsource hproduce

/-- A system without files, with an indicator on standard input. -/
def pipedHost : Host :=
  ⟨fun _ => .error .missing, .ok "//@version=5\nx = close[1]\n", fun _ => none⟩

theorem pipedHost_leaves_result_only : ((run pipedHost ["a.pine", "-o", "a.js"]).exitCode = 2 ∧
      (run pipedHost ["a.pine", "-o", "a.js"]).stdout = "" ∧
      (run pipedHost ["a.pine", "-o", "a.js"]).written = none) ∧
    ∃ text, (run pipedHost ["-n", "-o", "a.js", "-"]).written = some ("a.js", text) ∧
      (run pipedHost ["-n", "-o", "a.js", "-"]).stdout = "" ∧
      run pipedHost ["-n", "-"] = ⟨0, text, "", none⟩ := by
  have hmissing : (run pipedHost ["a.pine", "-o", "a.js"]).exitCode = 2 := by decide +kernel
  have hcode : (run pipedHost ["-n", "-o", "a.js", "-"]).exitCode = 0 := by decide +kernel
  have hfile : (run pipedHost ["-n", "-o", "a.js", "-"]).written.map (·.1) = some "a.js" := by
    decide +kernel
  obtain ⟨⟨_, text⟩, hwritten, rfl⟩ := Option.map_eq_some_iff.mp hfile
  have hwithout : withoutOutput ["-n", "-o", "a.js", "-"] = ["-n", "-"] := by decide +kernel
  obtain ⟨hstdout, hrun⟩ := (run_leaves_result_only pipedHost _).2 _ text hcode hwritten
  rw [hwithout] at hrun
  exact ⟨⟨hmissing, (run_leaves_result_only pipedHost _).1 (by simp [hmissing])⟩,
    text, hwritten, hstdout, hrun⟩

end IndicatorCompiler.CommandLine
