import RuleGraph.CommandLine.Execution
import RuleGraph.Proofs.GraphRoundTrip
import RuleGraph.Proofs.Paths

/-!
# All or nothing

An invocation delivers the whole text of a graph to its destination, or it fails and leaves nothing
behind: no output and no change of any file (`execute_all_or_nothing`). It succeeds exactly if its
input can be opened and converted and its destination can be written, also where the destination is
the file that was read.
-/

namespace RuleGraph.CommandLine

open Json

namespace Invocation

variable {i : Invocation} {stdin : ByteArray} {dir : Directory} {home : List String}
  {source : Source}

/-! ## Opening -/

/-- What an invocation opens: the standard input, or a file of some name. A directory can be opened
as well, but reading it fails. -/
inductive Opens (i : Invocation) (stdin : ByteArray) (dir : Directory) (home : List String) :
    Source → Prop
  | unnamed (h : i.input = none) : Opens i stdin dir home ⟨stdin, none⟩
  | dash (h : i.input = some "-") : Opens i stdin dir home ⟨stdin, none⟩
  | file {path : String} {bytes : ByteArray} (h : i.input = some path) (hpath : path ≠ "-")
      (hread : dir.read home path = .ok (some bytes)) : Opens i stdin dir home ⟨bytes, none⟩
  | directory {path : String} (h : i.input = some path) (hpath : path ≠ "-")
      (hread : dir.read home path = .ok none) :
      Opens i stdin dir home ⟨.empty, some "Is a directory (os error 21)"⟩

theorem openIn_of_path {path : String} (h : i.input = some path) (hpath : path ≠ "-") :
    i.openIn stdin dir home =
      match dir.read home path with
      | .ok (some bytes) => .ok ⟨bytes, none⟩
      | .ok none => .ok ⟨.empty, some Refusal.isDirectory.message⟩
      | .error r => .error r.message := by
  have hfile : i.file? = some path := by
    rw [file?, h]
    exact if_pos (decide_eq_true hpath)
  rewrite [openIn, hfile]
  rfl

theorem openIn_eq_ok_iff :
    i.openIn stdin dir home = .ok source ↔ i.Opens stdin dir home source := by
  constructor
  · intro h
    cases hinput : i.input with
    | none =>
      rw [openIn, file?, hinput] at h
      cases h
      exact .unnamed hinput
    | some path =>
      by_cases hpath : path = "-"
      · subst hpath
        rw [openIn, file?, hinput] at h
        cases h
        exact .dash hinput
      · rw [openIn_of_path hinput hpath] at h
        split at h
        · rename_i bytes hread
          cases h
          exact .file hinput hpath hread
        · rename_i hread
          cases h
          exact .directory hinput hpath hread
        · cases h
  · intro h
    cases h with
    | unnamed h => rw [openIn, file?, h]; rfl
    | dash h => rw [openIn, file?, h]; rfl
    | file h hpath hread => rw [openIn_of_path h hpath, hread]
    | directory h hpath hread => rw [openIn_of_path h hpath, hread]; rfl

/-! ## How an invocation finishes -/

/-- The ways in which an invocation finishes. Each leaves the log open. -/
inductive Finishes (i : Invocation) (stdin : ByteArray) (dir : Directory) (home : List String) :
    Execution → Prop
  /-- The input cannot be opened. -/
  | cannotOpen {report : Option String} {log : List String}
      (h : ∀ source, ¬ i.Opens stdin dir home source) :
      Finishes i stdin dir home ⟨1, [], report, log, dir⟩
  /-- The input is not converted. -/
  | cannotConvert {source : Source} {report : Option String} {log : List String}
      (ho : i.Opens stdin dir home source) (h : (run source ⟨none, ""⟩).error ≠ none) :
      Finishes i stdin dir home ⟨1, [], report, log, dir⟩
  /-- The destination cannot be written. -/
  | cannotWrite {path : String} {report : Option String} {log : List String}
      (hp : i.output = some path) (h : ∀ name, ¬ dir.Names home path name) :
      Finishes i stdin dir home ⟨1, [], report, log, dir⟩
  /-- The text goes to the standard output. -/
  | toStdout {source : Source} {bytes : List UInt8} {report : Option String} {log : List String}
      (ho : i.Opens stdin dir home source) (hr : run source ⟨none, ""⟩ = ⟨bytes, none⟩)
      (hp : i.output = none) : Finishes i stdin dir home ⟨0, bytes, report, log, dir⟩
  /-- The text goes to a file. -/
  | toFile {source : Source} {bytes : List UInt8} {path name : String} {report : Option String}
      {log : List String} (ho : i.Opens stdin dir home source)
      (hr : run source ⟨none, ""⟩ = ⟨bytes, none⟩) (hp : i.output = some path)
      (hn : dir.Names home path name) :
      Finishes i stdin dir home ⟨0, [], report, log, OrderedMap.put name ⟨bytes.toArray⟩ dir⟩

theorem convert_of_error {e : ConversionError} (h : (run source ⟨none, ""⟩).error = some e) :
    i.convert (.ok source) = .error (.conversion e) := by
  simp only [convert, h]

theorem convert_of_no_error (h : (run source ⟨none, ""⟩).error = none) :
    i.convert (.ok source) = .ok (run source ⟨none, ""⟩).written := by
  simp only [convert, h]

theorem run_eq_of_no_error (h : (run source ⟨none, ""⟩).error = none) :
    run source ⟨none, ""⟩ = ⟨(run source ⟨none, ""⟩).written, none⟩ := by
  rw [← h]

/-- Every invocation finishes in one of these ways. -/
theorem finishes (i : Invocation) (stdin : ByteArray) (dir : Directory) (home : List String) :
    i.Finishes stdin dir home (i.execute stdin dir home) := by
  unfold execute
  cases hopen : i.openIn stdin dir home with
  | error reason =>
    refine .cannotOpen fun source hsource => ?_
    rw [openIn_eq_ok_iff.mpr hsource] at hopen
    cases hopen
  | ok source =>
    have ho := openIn_eq_ok_iff.mp hopen
    cases herror : (run source ⟨none, ""⟩).error with
    | some e =>
      simp only [convert_of_error herror]
      exact .cannotConvert ho (by rw [herror]; exact Option.some_ne_none e)
    | none =>
      have hr := run_eq_of_no_error herror
      simp only [convert_of_no_error herror]
      cases hp : i.output with
      | none => exact .toStdout ho hr hp
      | some path =>
        cases hw : dir.write home path ⟨(run source ⟨none, ""⟩).written.toArray⟩ with
        | error r =>
          simp only [hw]
          refine .cannotWrite hp fun name hname => ?_
          rw [Directory.write_eq_ok_iff.mpr ⟨name, hname, rfl⟩] at hw
          cases hw
        | ok dir' =>
          obtain ⟨name, hname, rfl⟩ := Directory.write_eq_ok_iff.mp hw
          simp only [hw]
          exact .toFile ho hr hp hname

theorem Opens.unique {source' : Source} (h : i.Opens stdin dir home source)
    (h' : i.Opens stdin dir home source') : source = source' := by
  rw [← openIn_eq_ok_iff] at h h'
  exact Except.ok.inj (h.symm.trans h')

/-! ## What is left behind -/

/-- An invocation can be carried out: its input can be opened and converted without an error, and
its destination, if it has one, is the path of a file that is there or can be. -/
def Feasible (i : Invocation) (stdin : ByteArray) (dir : Directory) (home : List String) : Prop :=
  ∃ source, i.Opens stdin dir home source ∧ (run source ⟨none, ""⟩).error = none ∧
    ∀ path, i.output = some path → ∃ name, dir.Names home path name

/-- Some bytes are delivered to the standard output, or to the file that a path leads to; they are
the whole of it, and no other file changes. -/
structure Delivers (i : Invocation) (dir : Directory) (home : List String) (bytes : List UInt8)
    (x : Execution) : Prop where
  toStdout : i.output = none → x.stdout = bytes ∧ x.files = dir
  toFile : ∀ path, i.output = some path →
    x.stdout = [] ∧ x.files.read home path = .ok (some ⟨bytes.toArray⟩) ∧
      ∃ name, dir.Names home path name ∧
        ∀ other, other ≠ name → OrderedMap.find? other x.files = OrderedMap.find? other dir

namespace Finishes

variable {x : Execution}

theorem exit_eq_zero_iff (h : i.Finishes stdin dir home x) :
    x.exit = 0 ↔ i.Feasible stdin dir home := by
  cases h with
  | cannotOpen h =>
    refine iff_of_false Nat.one_ne_zero ?_
    rintro ⟨source, ho, -⟩
    exact h source ho
  | cannotConvert ho h =>
    refine iff_of_false Nat.one_ne_zero ?_
    rintro ⟨source, ho', hr, -⟩
    rw [ho.unique ho'] at h
    exact h hr
  | cannotWrite hp h =>
    refine iff_of_false Nat.one_ne_zero ?_
    rintro ⟨-, -, -, hnames⟩
    obtain ⟨name, hname⟩ := hnames _ hp
    exact h name hname
  | toStdout ho hr hp =>
    refine iff_of_true rfl ⟨_, ho, by rw [hr], fun path hpath => ?_⟩
    rw [hp] at hpath
    cases hpath
  | toFile ho hr hp hn =>
    refine iff_of_true rfl ⟨_, ho, by rw [hr], fun path hpath => ?_⟩
    rw [hp] at hpath
    cases hpath
    exact ⟨_, hn⟩

theorem unchanged (h : i.Finishes stdin dir home x) (hx : x.exit ≠ 0) :
    x.stdout = [] ∧ x.files = dir := by
  cases h with
  | cannotOpen | cannotConvert | cannotWrite => exact ⟨rfl, rfl⟩
  | toStdout | toFile => exact absurd rfl hx

theorem delivers (h : i.Finishes stdin dir home x) (hx : x.exit = 0)
    (ho : i.Opens stdin dir home source) :
    i.Delivers dir home (run source ⟨none, ""⟩).written x := by
  cases h with
  | cannotOpen | cannotConvert | cannotWrite => cases hx
  | toStdout ho' hr hp =>
    rw [ho.unique ho', hr]
    refine ⟨fun _ => ⟨rfl, rfl⟩, fun path hpath => ?_⟩
    rw [hp] at hpath
    cases hpath
  | toFile ho' hr hp hn =>
    rw [ho.unique ho', hr]
    refine ⟨fun hpath => ?_, fun path hpath => ?_⟩ <;> rw [hp] at hpath <;> cases hpath
    exact ⟨rfl, Directory.read_put hn, _, hn, fun other hne => OrderedMap.find?_put_of_ne hne _ _⟩

end Finishes

end Invocation

/-! ## Runs of the program -/

variable {args : List String} {i : Invocation}

theorem execute_of_convert (h : Command.ofArguments args = .convert i) (stdin : ByteArray)
    (dir : Directory) (home : List String) :
    execute args stdin dir home = i.execute stdin dir home := by
  rw [execute, h]

/-- The program succeeds exactly if the invocation is feasible. It delivers all that the conversion
writes then, and leaves nothing behind otherwise. -/
theorem execute_all_or_nothing (h : Command.ofArguments args = .convert i) (stdin : ByteArray)
    (dir : Directory) (home : List String) :
    ((execute args stdin dir home).exit = 0 ↔ i.Feasible stdin dir home) ∧
      ((execute args stdin dir home).exit ≠ 0 →
        (execute args stdin dir home).stdout = [] ∧ (execute args stdin dir home).files = dir) ∧
      ((execute args stdin dir home).exit = 0 → ∀ source, i.Opens stdin dir home source →
        i.Delivers dir home (run source ⟨none, ""⟩).written (execute args stdin dir home)) := by
  rw [execute_of_convert h]
  have hfinishes := i.finishes stdin dir home
  exact ⟨hfinishes.exit_eq_zero_iff, hfinishes.unchanged, fun hx _ ho => hfinishes.delivers hx ho⟩

theorem Directory.place_absolute (bytes : ByteArray) :
    Directory.place [("a", bytes)] ["w"] "/w/a" = .ok (.file "a") := rfl

theorem Directory.place_above (bytes : ByteArray) :
    Directory.place [("a", bytes)] ["w"] ".././w/a" = .ok (.file "a") := rfl

/-- A file that is converted in place, by two of its paths, and kept where the standard input cannot
be converted. -/
theorem execute_all_or_nothing_inPlace :
    (Command.ofArguments ["/w/a", "-o", ".././w/a"] =
        .convert ⟨some "/w/a", some ".././w/a", .info⟩ ∧
      ∃ (g : GraphDocument) (x : Execution),
        x = execute ["/w/a", "-o", ".././w/a"] .empty [("a", numberText.toUTF8)] ["w"] ∧
          x.exit = 0 ∧ x.stdout = [] ∧
          x.files.read ["w"] ".././w/a" = .ok (some ⟨g.text.toUTF8.toList.toArray⟩)) ∧
    Command.ofArguments ["-qo", "/w/a"] = .convert ⟨none, some "/w/a", .warn⟩ ∧
      ∃ x, x = execute ["-qo", "/w/a"] "null".toUTF8 [("a", numberText.toUTF8)] ["w"] ∧
        x.exit ≠ 0 ∧ x.stdout = [] ∧ x.files = [("a", numberText.toUTF8)] := by
  refine ⟨⟨by decide, ?_⟩, by decide, _, rfl, ?_⟩
  · have harguments : Command.ofArguments ["/w/a", "-o", ".././w/a"] =
        .convert ⟨some "/w/a", some ".././w/a", .info⟩ := by decide
    obtain ⟨hexit, -, hdelivers⟩ :=
      execute_all_or_nothing harguments .empty [("a", numberText.toUTF8)] ["w"]
    have hopens : Invocation.Opens ⟨some "/w/a", some ".././w/a", .info⟩ .empty
        [("a", numberText.toUTF8)] ["w"] ⟨numberText.toUTF8, none⟩ := by
      refine .file rfl (by decide) ?_
      rw [Directory.read, Directory.place_absolute]
      rfl
    obtain ⟨g, hrun⟩ := run_numberText
    have hrun : run ⟨numberText.toUTF8, none⟩ ⟨none, ""⟩ = ⟨g.text.toUTF8.toList, none⟩ := hrun _
    have hzero := hexit.mpr ⟨_, hopens, by rw [hrun], fun path hpath => by
      cases hpath
      exact ⟨"a", .inl (Directory.place_above _), by decide⟩⟩
    obtain ⟨hstdout, hread, -⟩ := (hdelivers hzero _ hopens).toFile _ rfl
    rw [hrun] at hread
    exact ⟨g, _, rfl, hzero, hstdout, hread⟩
  · have harguments : Command.ofArguments ["-qo", "/w/a"] =
        .convert ⟨none, some "/w/a", .warn⟩ := by decide
    obtain ⟨hexit, hkept, -⟩ :=
      execute_all_or_nothing harguments "null".toUTF8 [("a", numberText.toUTF8)] ["w"]
    have hfails : (run ⟨"null".toUTF8, none⟩ ⟨none, ""⟩).error ≠ none := by
      have hholds : Source.Holds ⟨"null".toUTF8, none⟩ "null" := ⟨rfl, fromUTF8?_toUTF8 "null"⟩
      have hnull : Value.ofText "null" = .ok .null :=
        (spelled_compactText (v := .null) trivial).ofText_eq trivial (by decide)
      have hd := Document.ofText_of_not_object hnull fun _ => by rintro ⟨⟩
      rw [run_of_ofText_error hholds hd]
      exact Option.some_ne_none _
    have hinfeasible : ¬ Invocation.Feasible ⟨none, some "/w/a", .warn⟩ "null".toUTF8
        [("a", numberText.toUTF8)] ["w"] := by
      rintro ⟨source, hopens, hrun, -⟩
      cases hopens.unique (.unnamed rfl)
      exact hfails hrun
    have hnonzero := mt hexit.mp hinfeasible
    exact ⟨hnonzero, hkept hnonzero⟩

end RuleGraph.CommandLine
