import LambdaSyntax.Program

/-!
Runs over several files.

A run checks its files one after the other and gives all their reports or none. So the run over two
lists of paths, one behind the other, is made of the runs over each: their texts with a newline
between them, or the error of the first that fails. What ends a run is the first path without a
file, or with a file that is not UTF-8 as a whole, whatever was checked before; the program then
prints nothing but the error.

* `Files.run_append`: the run over two lists of paths from the runs over each.
* `Files.run_eq_error_iff`: where and why a run fails.
* `runs_compose`: both, and what the program makes of a run that fails.
-/

namespace LambdaSyntax

/-- A path has no lines to check, and why: there is no file of that path, or there is one whose
bytes are not UTF-8 as a whole. -/
inductive Files.Unreadable (files : Files) (path : String) : ReadError → Prop where
  | missing : files path = none → Unreadable files path .missing
  | invalidUtf8 {bytes : ByteArray} : files path = some bytes → ¬ bytes.IsValidUTF8 →
      Unreadable files path .invalidUtf8

/-- The first of some paths that has no lines to check, and why it has none. -/
def Files.FirstUnreadable (files : Files) (paths : List String) (cause : ReadError) : Prop :=
  ∃ before path after, paths = before ++ path :: after ∧
    (∀ earlier ∈ before, ∀ cause, ¬ files.Unreadable earlier cause) ∧ files.Unreadable path cause

/-! ### One error for all -/

/-- A list of computations fails where the first of them fails. -/
theorem mapM_eq_error_iff {α β ε : Type} {f : α → Except ε β} {xs : List α} {error : ε} :
    xs.mapM f = .error error ↔
      ∃ before x after, xs = before ++ x :: after ∧ (∀ y ∈ before, ∀ error, f y ≠ .error error) ∧
        f x = .error error := by
  constructor
  · intro h
    induction xs with
    | nil => cases h
    | cons x rest ih =>
        rw [List.mapM_cons] at h
        cases hx : f x with
        | error error' =>
            rw [hx] at h
            cases h
            exact ⟨[], x, rest, rfl, by simp, hx⟩
        | ok value =>
            cases hrest : rest.mapM f with
            | ok values =>
                rw [hx, hrest] at h
                cases h
            | error error' =>
                rw [hx, hrest] at h
                cases h
                obtain ⟨before, y, after, rfl, hbefore, hy⟩ := ih hrest
                refine ⟨x :: before, y, after, rfl, List.forall_mem_cons.mpr ⟨?_, hbefore⟩, hy⟩
                simp [hx]
  · rintro ⟨before, x, after, rfl, hbefore, hx⟩
    induction before with
    | nil => simp [List.mapM_cons, hx, bind, Except.bind]
    | cons y before ih =>
        obtain ⟨hy, hrest⟩ := List.forall_mem_cons.mp hbefore
        cases hvalue : f y with
        | error error' => exact absurd hvalue (hy error')
        | ok value =>
            rw [List.cons_append, List.mapM_cons, hvalue, ih hrest]
            rfl

theorem ne_nil_of_mapM_eq_ok {α β ε : Type} {f : α → Except ε β} {xs : List α} {values : List β}
    (hne : xs ≠ []) (h : xs.mapM f = .ok values) : values ≠ [] := by
  obtain ⟨x, rest, rfl⟩ := List.exists_cons_of_ne_nil hne
  rw [List.mapM_cons] at h
  cases hx : f x with
  | error error => simp [hx, bind, Except.bind] at h
  | ok value =>
      cases hrest : rest.mapM f with
      | error error => simp [hx, hrest, bind, Except.bind] at h
      | ok others =>
          rw [hx, hrest] at h
          cases h
          exact List.cons_ne_nil value others

namespace Files

variable {files : Files} {printTrees : Bool}

theorem text_eq_error_iff {path : String} {cause : ReadError} :
    files.text path = .error cause ↔ files.Unreadable path cause := by
  constructor
  · intro h
    unfold text at h
    split at h
    · rename_i hmissing
      cases h
      exact .missing hmissing
    · rename_i bytes hbytes
      split at h
      · rename_i hinvalid
        cases h
        refine .invalidUtf8 hbytes fun hvalid => ?_
        simp [String.fromUTF8?, hvalid] at hinvalid
      · cases h
  · rintro (hmissing | ⟨hbytes, hinvalid⟩)
    · simp [text, hmissing]
    · simp [text, hbytes, String.fromUTF8?, hinvalid]

/-- A file gives no report exactly if it has no lines to check. -/
theorem check_eq_error_iff {path : String} {cause : ReadError} :
    files.check printTrees path = .error cause ↔ files.Unreadable path cause := by
  rw [← text_eq_error_iff, check, lines]
  cases files.text path with
  | error cause' => exact Iff.rfl
  | ok text => simp [Except.map]

/-! ### Runs -/

theorem run_of_ne_nil {paths : List String} (hne : paths ≠ []) :
    files.run printTrees paths =
      ((paths.mapM (files.check printTrees)).map ("\n".intercalate ·)).mapError .unreadable := by
  rw [run, List.isEmpty_eq_false_iff.mpr hne]
  cases paths.mapM (files.check printTrees) with
  | error cause => rfl
  | ok texts => rfl

/-- **The runs over two lists of paths make the run over both.** -/
theorem run_append {first second : List String} (hfirst : first ≠ []) (hsecond : second ≠ []) :
    files.run printTrees (first ++ second) = do
      let text ← files.run printTrees first
      let further ← files.run printTrees second
      return text ++ "\n" ++ further := by
  rw [run_of_ne_nil (List.append_ne_nil_of_left_ne_nil hfirst second), run_of_ne_nil hfirst,
    run_of_ne_nil hsecond, List.mapM_append]
  cases htexts : first.mapM (files.check printTrees) with
  | error cause => rfl
  | ok texts =>
      cases hfurther : second.mapM (files.check printTrees) with
      | error cause => rfl
      | ok further =>
          have htext := String.intercalate_append_of_ne_nil (s := "\n")
            (ne_nil_of_mapM_eq_ok hfirst htexts) (ne_nil_of_mapM_eq_ok hsecond hfurther)
          exact congrArg Except.ok htext

/-- **Where and why a run fails.** -/
theorem run_eq_error_iff {paths : List String} (hne : paths ≠ []) {error : RunError} :
    files.run printTrees paths = .error error ↔
      ∃ cause, error = .unreadable cause ∧ files.FirstUnreadable paths cause := by
  have hfirst : ∀ cause, paths.mapM (files.check printTrees) = .error cause ↔
      files.FirstUnreadable paths cause := by
    intro cause
    simp only [mapM_eq_error_iff, ne_eq, check_eq_error_iff, FirstUnreadable]
  rw [run_of_ne_nil hne]
  cases hchecked : paths.mapM (files.check printTrees) with
  | error cause =>
      constructor
      · intro h
        cases h
        exact ⟨cause, rfl, (hfirst cause).mp hchecked⟩
      · rintro ⟨cause', rfl, hcause'⟩
        rw [(hfirst cause').mpr hcause'] at hchecked
        cases hchecked
        rfl
  | ok texts =>
      refine iff_of_false (fun h => nomatch h) ?_
      rintro ⟨cause, -, hcause⟩
      rw [(hfirst cause).mpr hcause] at hchecked
      cases hchecked

/-- Among paths of which some has no lines there is a first one. -/
theorem exists_firstUnreadable_iff {paths : List String} :
    (∃ cause, files.FirstUnreadable paths cause) ↔
      ∃ path ∈ paths, ∃ cause, files.Unreadable path cause := by
  constructor
  · rintro ⟨cause, before, path, after, rfl, -, hpath⟩
    exact ⟨path, List.mem_append_right before List.mem_cons_self, cause, hpath⟩
  · induction paths with
    | nil => simp
    | cons path rest ih =>
        intro hsome
        by_cases hpath : ∃ cause, files.Unreadable path cause
        · obtain ⟨cause, hcause⟩ := hpath
          exact ⟨cause, [], path, rest, rfl, by simp, hcause⟩
        · simp only [List.mem_cons, exists_eq_or_imp] at hsome
          obtain ⟨cause, before, later, after, rfl, hbefore, hlater⟩ :=
            ih (hsome.resolve_left hpath)
          refine ⟨cause, path :: before, later, after, rfl, ?_, hlater⟩
          exact List.forall_mem_cons.mpr ⟨not_exists.mp hpath, hbefore⟩

end Files

/-! ### The program -/

/-- A run that fails leaves nothing to print but its error. -/
theorem program_of_run_eq_error {files : Files} {arguments : List String} {options : Options}
    {error : RunError} (hparse : Options.parse arguments = .ok options)
    (hrun : files.run options.printTrees options.paths = .error error) :
    program files arguments = .failure error := by
  simp only [program, hparse, hrun]

/-- **Runs compose, and they report on all files or on none.** The run over two lists of paths gives
the texts of the runs over each with a newline between them, or the error of the first that fails.
A run over some paths fails exactly if one of them has no file or a file that is not UTF-8 as a
whole, with the error of the first such path; the program then prints nothing to standard output and
ends with code 1. -/
theorem runs_compose (files : Files) (printTrees : Bool) :
    (∀ first second : List String, first ≠ [] → second ≠ [] →
      (∀ text further, files.run printTrees first = .ok text →
        files.run printTrees second = .ok further →
          files.run printTrees (first ++ second) = .ok (text ++ "\n" ++ further)) ∧
      (∀ error, files.run printTrees first = .error error →
        files.run printTrees (first ++ second) = .error error) ∧
      ∀ text error, files.run printTrees first = .ok text →
        files.run printTrees second = .error error →
          files.run printTrees (first ++ second) = .error error) ∧
    (∀ paths : List String, paths ≠ [] →
      ((∃ error, files.run printTrees paths = .error error) ↔
        ∃ path ∈ paths, ∃ cause, files.Unreadable path cause) ∧
      ∀ error, files.run printTrees paths = .error error ↔
        ∃ cause, error = .unreadable cause ∧ files.FirstUnreadable paths cause) ∧
    ∀ (arguments : List String) (options : Options) (error : RunError),
      Options.parse arguments = .ok options →
      files.run options.printTrees options.paths = .error error →
        (program files arguments).output = "" ∧ (program files arguments).exitCode = 1 ∧
          (program files arguments).errorOutput = error.message ++ "\n" := by
  refine ⟨fun first second hfirst hsecond => ?append, fun paths hne => ⟨?fails, ?first⟩, ?program⟩
  case append =>
    rw [Files.run_append hfirst hsecond]
    refine ⟨fun text further htext hfurther => ?_, fun error herror => ?_,
      fun text error htext herror => ?_⟩
    · rw [htext, hfurther]
      rfl
    · rw [herror]
      rfl
    · rw [htext, herror]
      rfl
  case fails =>
    rw [← Files.exists_firstUnreadable_iff]
    simp only [Files.run_eq_error_iff hne]
    constructor
    · rintro ⟨error, cause, -, hcause⟩
      exact ⟨cause, hcause⟩
    · rintro ⟨cause, hcause⟩
      exact ⟨_, cause, rfl, hcause⟩
  case first => exact fun error => Files.run_eq_error_iff hne
  case program =>
    intro arguments options error hparse hrun
    rw [program_of_run_eq_error hparse hrun]
    exact ⟨rfl, rfl, rfl⟩

/-- An empty file named twice, and a file that breaks off inside a character before one that does
not exist. -/
theorem empty_file_twice_and_broken_off_file :
    let files : Files := fun path =>
      if path = "empty" then some "".toUTF8
      else if path = "broken" then some ⟨#[0x78, 0xCE]⟩
      else none
    files.run true (["empty"] ++ ["empty"]) =
        .ok ("Checking empty...\nAll lines are valid" ++ "\n" ++
          "Checking empty...\nAll lines are valid") ∧
      files.run true (["broken"] ++ ["none"]) = .error (.unreadable .invalidUtf8) ∧
      files.run true (["empty"] ++ ["broken", "none"]) = .error (.unreadable .invalidUtf8) ∧
      (program files ["-ps", "empty", "broken", "none"]).output = "" ∧
      (program files ["-ps", "empty", "broken", "none"]).exitCode = 1 := by
  intro files
  have hempty : files.run true ["empty"] = .ok "Checking empty...\nAll lines are valid" := rfl
  have hbroken : files.run true ["broken"] = .error (.unreadable .invalidUtf8) := rfl
  have hparse : Options.parse ["-ps", "empty", "broken", "none"] =
      .ok ⟨["empty", "broken", "none"], true⟩ := rfl
  have hne : ∀ path : String, [path] ≠ [] := fun path => List.cons_ne_nil path []
  obtain ⟨happend, -, hprogram⟩ := runs_compose files true
  have htwice := (happend ["empty"] ["empty"] (hne _) (hne _)).1 _ _ hempty hempty
  have hfirst := (happend ["broken"] ["none"] (hne _) (hne _)).2.1 _ hbroken
  have hlast := (happend ["empty"] ["broken", "none"] (hne _) (by decide)).2.2 _ _ hempty hfirst
  obtain ⟨houtput, hcode, -⟩ := hprogram _ _ _ hparse hlast
  exact ⟨htwice, hfirst, hlast, houtput, hcode⟩

end LambdaSyntax
