import RuleGraph.Proofs.Delivery

/-!
# What an execution does not depend on

Flags for the level of the log change the log only: arguments that are the same without them
(`bare`) have the same exit status, output, error report and files. And it does not matter where an
input comes from, but only what it holds (`execute_noninterference`).
-/

namespace RuleGraph.CommandLine

/-! ## Arguments without flags for the log -/

/-- Whether a short option is a flag for the level of the log. -/
def isLevelFlag (c : Char) : Bool := c = 'v' || c = 'q'

/-- An argument without its flags for the level of the log; none if it has nothing else. -/
def bareArgument (arg : String) : Option String :=
  if arg = "--verbose" ∨ arg = "--quiet" then none
  else
    match arg.toList with
    | '-' :: '-' :: _ => some arg
    | '-' :: c :: cs =>
      match (c :: cs).dropWhile isLevelFlag with
      | [] => none
      | rest => some (String.ofList ('-' :: rest))
    | _ => some arg

/-- Arguments without flags for the level of the log. What stands behind `--` is no flag. -/
def bare : List String → List String
  | [] => []
  | arg :: args => if arg = "--" then arg :: args else (bareArgument arg).toList ++ bare args

/-- The arguments taken so far, without flags for the level of the log. -/
def Taken.bare (t : Taken) : Taken := { t with verbose := 0, quiet := 0 }

/-- An invocation whose log has the level that is the default. -/
def Invocation.bare (i : Invocation) : Invocation := { i with level := .info }

/-- A command whose log has the level that is the default. -/
def Command.bare : Command → Command
  | convert i => convert i.bare
  | c => c

/-- What options come to, without flags for the level of the log. -/
def Cluster.bare : Cluster → Cluster
  | taken t => taken t.bare
  | outputNext t => outputNext t.bare
  | command c => command c.bare

/-! ## Taking bare arguments -/

section Take

variable {t : Taken}

theorem withInput_bare (path : String) : t.bare.withInput path = (t.withInput path).map .bare := by
  unfold Taken.withInput Taken.bare
  split <;> rfl

theorem withOutput_bare (path : String) :
    t.bare.withOutput path = (t.withOutput path).map .bare := by
  unfold Taken.withOutput Taken.bare
  split <;> rfl

theorem elim_withOutput_bare (path : String) :
    (t.bare.withOutput path).elim (.command .misuse) Cluster.taken =
      ((t.withOutput path).elim (.command .misuse) Cluster.taken).bare := by
  rw [withOutput_bare]
  cases t.withOutput path <;> rfl

/-- Short options come to the same without the flags they start with. -/
theorem takeShort_bare (t : Taken) (cs : List Char) :
    takeShort t.bare (cs.dropWhile isLevelFlag) = (takeShort t cs).bare := by
  fun_induction takeShort t cs with
  | case1 => rfl
  | case2 t cs ih => exact ih
  | case3 t cs ih => exact ih
  | case4 t cs => rfl
  | case5 t cs => rfl
  | case6 t => rfl
  | case7 t path => exact elim_withOutput_bare _
  | case8 t path hne heq =>
    show takeShort t.bare ('o' :: path) = _
    rw [takeShort]
    · exact elim_withOutput_bare _
    · exact hne
    · exact heq
  | case9 t c cs hv hq hV hh ho ho' ho'' =>
    have hflag : isLevelFlag c = false :=
      Bool.or_eq_false_iff.mpr ⟨decide_eq_false hv, decide_eq_false hq⟩
    rw [List.dropWhile_cons_of_neg (by rw [hflag]; exact Bool.false_ne_true), takeShort]
    · rfl
    all_goals assumption

theorem takeLong_bare {option : List Char} (hverbose : option ≠ "verbose".toList)
    (hquiet : option ≠ "quiet".toList) : takeLong t.bare option = (takeLong t option).bare := by
  unfold takeLong
  simp only
  split
  · split
    · exact elim_withOutput_bare _
    · rfl
  · rename_i hall
    have hname : option.takeWhile (· ≠ '=') = option := by
      have happend := List.takeWhile_append_dropWhile (p := (· ≠ '=')) (l := option)
      rwa [hall, List.append_nil] at happend
    have hne {name : String} (h : option ≠ name.toList) : String.ofList option ≠ name := by
      rintro rfl
      exact h String.toList_ofList.symm
    rw [hname, if_neg (hne hverbose), if_neg (hne hquiet), if_neg (hne hverbose),
      if_neg (hne hquiet)]
    split_ifs <;> rfl

/-! ## One argument -/

variable {arg : String} {c : Char} {cs : List Char}

theorem takeOptions?_of_long {option : List Char} (harg : arg.toList = '-' :: '-' :: option) :
    takeOptions? t arg = some (takeLong t option) := by
  unfold takeOptions?
  simp only [harg]

theorem takeOptions?_of_short (hc : c ≠ '-') (harg : arg.toList = '-' :: c :: cs) :
    takeOptions? t arg = some (takeShort t (c :: cs)) := by
  unfold takeOptions?
  rw [harg]
  split
  · rename_i heq
    exact absurd (List.cons.inj (List.cons.inj heq).2).1 hc
  · rename_i heq
    cases heq
    rfl
  · rename_i hno
    exact absurd rfl (hno c cs)

theorem takeOptions?_eq_none_iff :
    takeOptions? t arg = none ↔ ∀ c cs, arg.toList ≠ '-' :: c :: cs := by
  unfold takeOptions?
  split
  · rename_i harg
    exact iff_of_false (by rintro ⟨⟩) fun h => h _ _ harg
  · rename_i harg
    exact iff_of_false (by rintro ⟨⟩) fun h => h _ _ harg
  · rename_i hshort
    exact iff_of_true rfl hshort

theorem bareArgument_of_long {option : List Char} (harg : arg.toList = '-' :: '-' :: option)
    (hflag : ¬ (arg = "--verbose" ∨ arg = "--quiet")) : bareArgument arg = some arg := by
  unfold bareArgument
  rw [if_neg hflag]
  simp only [harg]

theorem bareArgument_of_short (hc : c ≠ '-') (harg : arg.toList = '-' :: c :: cs) :
    bareArgument arg =
      match (c :: cs).dropWhile isLevelFlag with
      | [] => none
      | rest => some (String.ofList ('-' :: rest)) := by
  have hflag : ¬ (arg = "--verbose" ∨ arg = "--quiet") := by
    rintro (rfl | rfl) <;> exact hc (List.cons.inj (List.cons.inj harg).2).1.symm
  unfold bareArgument
  rw [if_neg hflag, harg]
  split
  · rename_i heq
    exact absurd (List.cons.inj (List.cons.inj heq).2).1 hc
  · rename_i heq
    cases heq
    rfl
  · rename_i hno
    exact absurd rfl (hno c cs)

theorem bareArgument_of_input (h : ∀ c cs, arg.toList ≠ '-' :: c :: cs) :
    bareArgument arg = some arg := by
  have hflag : ¬ (arg = "--verbose" ∨ arg = "--quiet") := by
    rintro (rfl | rfl) <;> exact h _ _ rfl
  unfold bareArgument
  rw [if_neg hflag]
  split
  · rfl
  · rename_i harg
    exact absurd harg (h _ _)
  · rfl

theorem eq_misuse_of_bare {taken : Cluster} (h : taken.bare = .command .misuse) :
    taken = .command .misuse := by
  cases taken with
  | taken t | outputNext t => cases h
  | command c =>
    cases c with
    | misuse => rfl
    | convert i | version | help => cases h

/-- How the options of an argument come to the same without flags for the level of the log: there
are no others, or the others come to the same. -/
inductive LosesFlags (t : Taken) (arg : String) : Cluster → Prop
  | all (t' : Taken) (h : bareArgument arg = none) (ht : t'.bare = t.bare) :
      LosesFlags t arg (.taken t')
  | some {arg' : String} {taken : Cluster} (h : bareArgument arg = some arg') (hne : arg' ≠ "--")
      (ht : takeOptions? t.bare arg' = some taken.bare) : LosesFlags t arg taken

theorem losesFlags_of_long {option : List Char} (harg : arg.toList = '-' :: '-' :: option)
    (haccepted : takeLong t option ≠ .command .misuse) :
    LosesFlags t arg (takeLong t option) := by
  by_cases hflag : arg = "--verbose" ∨ arg = "--quiet"
  · have hall : bareArgument arg = none := if_pos hflag
    obtain rfl | rfl := hflag <;> cases harg
    · exact .all { t with verbose := t.verbose + 1 } hall rfl
    · exact .all { t with quiet := t.quiet + 1 } hall rfl
  · have hverbose : option ≠ "verbose".toList := by
      rintro rfl
      exact hflag (.inl (String.toList_injective harg))
    have hquiet : option ≠ "quiet".toList := by
      rintro rfl
      exact hflag (.inr (String.toList_injective harg))
    refine .some (bareArgument_of_long harg hflag) ?_ ?_
    · rintro rfl
      cases harg
      exact haccepted rfl
    · rw [takeOptions?_of_long harg, takeLong_bare hverbose hquiet]

theorem losesFlags_of_short (hc : c ≠ '-') (harg : arg.toList = '-' :: c :: cs)
    (haccepted : takeShort t (c :: cs) ≠ .command .misuse) :
    LosesFlags t arg (takeShort t (c :: cs)) := by
  have hbare := bareArgument_of_short hc harg
  have hshort := takeShort_bare t (c :: cs)
  cases hrest : (c :: cs).dropWhile isLevelFlag with
  | nil =>
    rw [hrest] at hshort hbare
    cases htaken : takeShort t (c :: cs) with
    | taken t' =>
      rw [htaken] at hshort
      exact .all t' hbare (Cluster.taken.inj hshort).symm
    | outputNext t' | command c' =>
      rw [htaken] at hshort
      cases hshort
  | cons d ds =>
    rw [hrest] at hshort hbare
    -- a dash behind the flags is a misuse, so what is left is not taken for a long option
    have hd : d ≠ '-' := by
      rintro rfl
      exact haccepted (eq_misuse_of_bare hshort.symm)
    refine .some hbare ?_ ?_
    · intro heq
      exact hd (List.cons.inj (List.cons.inj (String.ofList_injective heq)).2).1
    · rw [takeOptions?_of_short hd String.toList_ofList, hshort]

/-- The options of an argument come to the same without flags for the level of the log. -/
theorem losesFlags {taken : Cluster} (h : takeOptions? t arg = some taken)
    (haccepted : taken ≠ .command .misuse) : LosesFlags t arg taken := by
  unfold takeOptions? at h
  split at h
  · rename_i option harg
    cases h
    exact losesFlags_of_long harg haccepted
  · rename_i c cs hc harg
    cases h
    exact losesFlags_of_short hc harg haccepted
  · cases h

/-! ## All arguments -/

theorem command_bare (h : t.command ≠ .misuse) : t.bare.command = t.command.bare := by
  unfold Taken.command at h ⊢
  split at h
  · exact absurd rfl h
  · rename_i hboth
    rw [if_neg hboth]
    rfl

theorem takeInputs_bare {args : List String} (h : takeInputs t args ≠ .misuse) :
    takeInputs t.bare args = (takeInputs t args).bare := by
  induction args generalizing t with
  | nil => exact command_bare h
  | cons arg args ih =>
    unfold takeInputs at h ⊢
    rw [withInput_bare]
    cases hinput : t.withInput arg with
    | none => rfl
    | some t' =>
      rw [hinput] at h
      exact ih h

theorem bare_cons {args : List String} (h : arg ≠ "--") :
    bare (arg :: args) = (bareArgument arg).toList ++ bare args := if_neg h

theorem bare_cons_of_some {arg' : String} {args : List String} (h : arg ≠ "--")
    (hsome : bareArgument arg = some arg') : bare (arg :: args) = arg' :: bare args := by
  rw [bare_cons h, hsome]
  rfl

theorem bare_cons_of_value {path : String} {args : List String} (h : ¬ looksLikeOption path) :
    bare (path :: args) = path :: bare args := by
  have hvalue : ∀ c cs, path.toList ≠ '-' :: c :: cs := by
    intro c cs hpath
    have hne : path ≠ "-" := by
      rintro rfl
      cases hpath
    exact h (by simp [looksLikeOption, hpath, hne])
  have hdashes : path ≠ "--" := by
    rintro rfl
    exact hvalue _ _ rfl
  exact bare_cons_of_some hdashes (bareArgument_of_input hvalue)

/-- Arguments that are accepted come to the same without flags for the level of the log. -/
theorem takeArguments_bare (t : Taken) (args : List String) (h : takeArguments t args ≠ .misuse) :
    takeArguments t.bare (bare args) = (takeArguments t args).bare := by
  fun_induction takeArguments t args with
  | case1 t => exact command_bare h
  | case2 t args =>
    show takeArguments t.bare ("--" :: args) = _
    rw [takeArguments, if_pos rfl]
    exact takeInputs_bare h
  | case3 t arg args hdashes hnone ih =>
    have hinput := takeOptions?_eq_none_iff.mp hnone
    rw [bare_cons_of_some hdashes (bareArgument_of_input hinput), takeArguments, if_neg hdashes,
      takeOptions?_eq_none_iff.mpr hinput, withInput_bare]
    cases hpath : t.withInput arg with
    | none => rfl
    | some t' =>
      rw [hpath] at h
      exact ih t' h
  | case4 t arg args hdashes t' htaken ih =>
    cases losesFlags htaken (by rintro ⟨⟩) with
    | all _ hall ht =>
      rw [bare_cons hdashes, hall, ← ht]
      exact ih h
    | some hsome hne ht =>
      rw [bare_cons_of_some hdashes hsome, takeArguments, if_neg hne, ht]
      exact ih h
  | case5 t arg args hdashes c htaken =>
    cases losesFlags htaken (fun hc => h (Cluster.command.inj hc)) with
    | some hsome hne ht =>
      rw [bare_cons_of_some hdashes hsome, takeArguments, if_neg hne, ht]
      rfl
  | case6 t arg hdashes t' htaken => exact absurd rfl h
  | case7 t arg hdashes t' htaken path args hpath => exact absurd rfl h
  | case8 t arg hdashes t' htaken path args hpath ih =>
    cases losesFlags htaken (by rintro ⟨⟩) with
    | some hsome hne ht =>
      rw [bare_cons_of_some hdashes hsome, bare_cons_of_value hpath, takeArguments, if_neg hne, ht]
      show (if looksLikeOption path then _ else _) = _
      rw [if_neg hpath, withOutput_bare]
      cases houtput : t'.withOutput path with
      | none => rfl
      | some t'' =>
        rw [houtput] at h
        exact ih t'' h

end Take

/-! ## Executions with different logs -/

/-- All that can be seen of an execution but its log. -/
def Execution.withoutLog (x : Execution) : Execution := { x with log := [] }

@[simp] theorem Execution.withoutLog_mk {exit : Nat} {stdout : List UInt8} {report : Option String}
    {log : List String} {files : Directory} :
    (Execution.mk exit stdout report log files).withoutLog = ⟨exit, stdout, report, [], files⟩ :=
  rfl

theorem withoutLog_execute_bare (i : Invocation) (stdin : ByteArray) (dir : Directory)
    (home : List String) :
    (i.bare.execute stdin dir home).withoutLog = (i.execute stdin dir home).withoutLog := by
  have hopen : i.bare.openIn stdin dir home = i.openIn stdin dir home := rfl
  have hconvert (opened : Except String Source) : i.bare.convert opened = i.convert opened := rfl
  have houtput : i.bare.output = i.output := rfl
  unfold Invocation.execute
  simp only [hopen, hconvert, houtput]
  cases i.convert (i.openIn stdin dir home) with
  | error f => simp only [Execution.withoutLog_mk]
  | ok bytes =>
    cases i.output with
    | none => simp only [Execution.withoutLog_mk]
    | some path =>
      simp only
      cases dir.write home path ⟨bytes.toArray⟩ <;> simp only [Execution.withoutLog_mk]

variable {args args' : List String} {stdin stdin' : ByteArray} {dir dir' : Directory}
  {home home' : List String}

/-- What can be seen but the log is decided by the command without the level of its log. -/
theorem withoutLog_execute_congr
    (h : (Command.ofArguments args).bare = (Command.ofArguments args').bare) :
    (execute args stdin dir home).withoutLog = (execute args' stdin dir home).withoutLog := by
  unfold execute
  generalize Command.ofArguments args = c at h ⊢
  generalize Command.ofArguments args' = c' at h ⊢
  cases c with
  | convert i =>
    cases c' with
    | convert i' =>
      show (i.execute stdin dir home).withoutLog = (i'.execute stdin dir home).withoutLog
      rw [← withoutLog_execute_bare i, ← withoutLog_execute_bare i', Command.convert.inj h]
    | misuse | version | help => cases h
  | misuse | version | help =>
    cases c' <;> cases h
    rfl

theorem withoutLog_execute_of_bare_eq (h : Command.ofArguments args ≠ .misuse)
    (h' : Command.ofArguments args' ≠ .misuse) (hbare : bare args = bare args') :
    (execute args stdin dir home).withoutLog = (execute args' stdin dir home).withoutLog := by
  refine withoutLog_execute_congr ?_
  unfold Command.ofArguments at h h' ⊢
  rw [← takeArguments_bare _ _ h, ← takeArguments_bare _ _ h', hbare]

/-! ## Executions on the same input from different places -/

/-- In both directories a path leads to files of the same name, written already or not, or to the
same place. -/
def Directory.LeadsAlike (dir : Directory) (home : List String) (dir' : Directory)
    (home' : List String) (path : String) : Prop :=
  (∃ name, dir.Names home path name ∧ dir'.Names home' path name) ∨
    dir.place home path = dir'.place home' path

theorem Directory.LeadsAlike.write {path : String} (h : dir.LeadsAlike home dir' home' path)
    (bytes : ByteArray) :
    (∃ why, dir.write home path bytes = .error why ∧ dir'.write home' path bytes = .error why) ∨
      ∃ name, dir.write home path bytes = .ok (OrderedMap.put name bytes dir) ∧
        dir'.write home' path bytes = .ok (OrderedMap.put name bytes dir') := by
  obtain ⟨name, hname, hname'⟩ | hplace := h
  · exact .inr ⟨name, write_eq_ok_iff.mpr ⟨name, hname, rfl⟩,
      write_eq_ok_iff.mpr ⟨name, hname', rfl⟩⟩
  · unfold Directory.write
    rw [← hplace]
    cases dir.place home path with
    | error why => exact .inl ⟨why, rfl, rfl⟩
    | ok place =>
      cases place with
      | directory => exact .inl ⟨_, rfl, rfl⟩
      | barred why => exact .inl ⟨_, rfl, rfl⟩
      | file name | free name =>
        cases hslash : endsInSlash path with
        | true => exact .inl ⟨.isDirectory, rfl, rfl⟩
        | false => exact .inr ⟨name, rfl, rfl⟩

/-- Two executions, each in a directory, that say the same and change their directories alike. -/
structure Execution.Corresponds (x x' : Execution) (dir dir' : Directory) : Prop where
  exit : x.exit = x'.exit
  stdout : x.stdout = x'.stdout
  report : x.report = x'.report
  files : (x.files = dir ∧ x'.files = dir') ∨
    ∃ name bytes, x.files = OrderedMap.put name bytes dir ∧
      x'.files = OrderedMap.put name bytes dir'

theorem Invocation.corresponds {i i' : Invocation} {source : Source}
    (ho : i.Opens stdin dir home source) (ho' : i'.Opens stdin' dir' home' source)
    (houtput : i.output = i'.output)
    (hlead : ∀ path, i.output = some path → dir.LeadsAlike home dir' home' path) :
    (i.execute stdin dir home).Corresponds (i'.execute stdin' dir' home') dir dir' := by
  unfold execute
  simp only [openIn_eq_ok_iff.mpr ho, openIn_eq_ok_iff.mpr ho', ← houtput]
  cases herror : (run source ⟨none, ""⟩).error with
  | some e =>
    simp only [convert_of_error herror]
    exact ⟨rfl, rfl, rfl, .inl ⟨rfl, rfl⟩⟩
  | none =>
    simp only [convert_of_no_error herror]
    cases hpath : i.output with
    | none => exact ⟨rfl, rfl, rfl, .inl ⟨rfl, rfl⟩⟩
    | some path =>
      obtain ⟨why, hwrite, hwrite'⟩ | ⟨name, hwrite, hwrite'⟩ := (hlead path hpath).write
        ⟨(run source ⟨none, ""⟩).written.toArray⟩
      · simp only [hwrite, hwrite']
        exact ⟨rfl, rfl, rfl, .inl ⟨rfl, rfl⟩⟩
      · simp only [hwrite, hwrite']
        exact ⟨rfl, rfl, rfl, .inr ⟨name, _, rfl, rfl⟩⟩

/-- Flags for the level of the log are seen in the log alone. The same input, wherever it is read
from, is answered in the same way, and a path to write leads to the same change of files. -/
theorem execute_noninterference :
    (∀ args args' stdin dir home, Command.ofArguments args ≠ .misuse →
      Command.ofArguments args' ≠ .misuse → bare args = bare args' →
        (execute args stdin dir home).withoutLog = (execute args' stdin dir home).withoutLog) ∧
      ∀ args args' i i' stdin stdin' dir dir' home home' source,
        Command.ofArguments args = .convert i → Command.ofArguments args' = .convert i' →
          i.Opens stdin dir home source → i'.Opens stdin' dir' home' source →
            i.output = i'.output →
              (∀ path, i.output = some path → dir.LeadsAlike home dir' home' path) →
                (execute args stdin dir home).Corresponds (execute args' stdin' dir' home')
                  dir dir' := by
  refine ⟨fun args args' stdin dir home h h' hbare => withoutLog_execute_of_bare_eq h h' hbare, ?_⟩
  intro args args' i i' stdin stdin' dir dir' home home' source h h' ho ho' houtput hlead
  rw [execute_of_convert h, execute_of_convert h']
  exact Invocation.corresponds ho ho' houtput hlead

/-- A file that is converted in place loudly, quietly, and from the standard input where there is no
such file yet. -/
theorem execute_noninterference_inPlace :
    bare ["-vvo", "/w/a", "/w/a", "--verbose"] = bare ["-o", "/w/a", "-q", "/w/a"] ∧
      (∀ stdin dir home,
        (execute ["-vvo", "/w/a", "/w/a", "--verbose"] stdin dir home).withoutLog =
          (execute ["-o", "/w/a", "-q", "/w/a"] stdin dir home).withoutLog) ∧
      ∀ bytes, (execute ["-o", "/w/a", "-q", "/w/a"] .empty [("a", bytes)] ["w"]).Corresponds
        (execute ["-o", "/w/a", "-"] bytes [] ["w"]) [("a", bytes)] [] := by
  have hbare : bare ["-vvo", "/w/a", "/w/a", "--verbose"] = bare ["-o", "/w/a", "-q", "/w/a"] := by
    decide
  refine ⟨hbare, fun stdin dir home => ?_, fun bytes => ?_⟩
  · exact execute_noninterference.1 _ _ stdin dir home (by decide) (by decide) hbare
  · have hplace := Directory.place_absolute bytes
    have hfree : Directory.place [] ["w"] "/w/a" = .ok (.free "a") := rfl
    refine execute_noninterference.2 _ _ ⟨some "/w/a", some "/w/a", .warn⟩
      ⟨some "-", some "/w/a", .info⟩ _ _ _ _ _ _ ⟨bytes, none⟩ (by decide) (by decide) ?_ ?_ rfl ?_
    · refine .file rfl (by decide) ?_
      rw [Directory.read, hplace]
      rfl
    · exact .dash rfl
    · intro path hpath
      cases hpath
      exact .inl ⟨"a", ⟨.inl hplace, by decide⟩, ⟨.inr hfree, by decide⟩⟩

end RuleGraph.CommandLine
