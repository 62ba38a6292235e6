import Stencil.Main
import Stencil.Proofs.Files.Write

/-!
# What a run leaves behind

A run either fails, and then it leaves the files as they were and prints nothing, or all its steps
succeed. `Program.Fails` names the steps, and `code_ne_zero_iff` says that no other way leads to an
exit code that is not zero. A page is made from the files as they are before the run
(`Command.Makes`), and it is written last; so there is no failure left that could come behind it.

`run_effects` says all of this of one run: which file it can change, when, and what is in it then.
-/

namespace Stencil

open Executable (output?)

/-! ## Pages -/

namespace Command

variable {settings : Settings} {files : FileTree}

/-- The command makes the page from the settings and the files: a page for the data and the routes in
their files, or the page for a status code. -/
inductive Makes (settings : Settings) (files : FileTree) : Command → Text → Prop where
  | errorPage {code : Nat} {subtitle message page : Text} {output? : Option Location}
    (h : (Engine.ofSettings settings files).renderErrorPage code subtitle message = .ok page) :
    Makes settings files (.errorPage code subtitle message output?) page
  | render {template page : Text} {data? routes? output? : Option Location} {context : Context}
    {engine : Engine} (hc : Command.context files data? = .ok context)
    (he : Command.engine settings files routes? = .ok engine)
    (h : engine.render template context = .ok page) :
    Makes settings files (.render template data? routes? output?) page

/-- A step of the command fails: a check finds something fatal, the data or the routes cannot be
read, the page is not made, or it cannot be written. -/
inductive Fails (settings : Settings) (files : FileTree) : Command → Prop where
  | check {finding : Finding} (hm : finding ∈ settings.findings files)
    (hf : finding.severity.isFatal = true) : Fails settings files .check
  | data {template : Text} {data? routes? output? : Option Location} {e : Error}
    (h : Command.context files data? = .error e) :
    Fails settings files (.render template data? routes? output?)
  | routes {template : Text} {data? routes? output? : Option Location} {e : Error}
    (h : Command.engine settings files routes? = .error e) :
    Fails settings files (.render template data? routes? output?)
  | rendering {template : Text} {data? routes? output? : Option Location} {context : Context}
    {engine : Engine} {e : Error} (hc : Command.context files data? = .ok context)
    (he : Command.engine settings files routes? = .ok engine)
    (h : engine.render template context = .error e) :
    Fails settings files (.render template data? routes? output?)
  | errorPage {code : Nat} {subtitle message : Text} {output? : Option Location} {e : Error}
    (h : (Engine.ofSettings settings files).renderErrorPage code subtitle message = .error e) :
    Fails settings files (.errorPage code subtitle message output?)
  | output {command : Command} {page : Text} {l : Location} {e : IoError}
    (hp : command.Makes settings files page) (ho : output? command = some l)
    (h : files.write l page = .error e) : Fails settings files command

theorem Makes.unique {command : Command} {page page' : Text}
    (h : command.Makes settings files page) (h' : command.Makes settings files page') :
    page = page' := by
  cases h with
  | errorPage h =>
    cases h' with
    | errorPage h' => exact Except.ok.inj (h.symm.trans h')
  | render hc he h =>
    cases h' with
    | render hc' he' h' =>
      obtain rfl := Except.ok.inj (hc.symm.trans hc')
      obtain rfl := Except.ok.inj (he.symm.trans he')
      exact Except.ok.inj (h.symm.trans h')

/-- A command that makes a page goes on to put it where it belongs. -/
theorem run_of_makes {command : Command} {page : Text} (h : command.Makes settings files page) :
    command.run settings files = Outcome.ofPage files page (output? command) := by
  cases h with
  | errorPage h =>
    rw [run, h]
    rfl
  | render hc he h =>
    rw [run, hc, he]
    simp only [bind, Except.bind, h]
    rfl

end Command

/-! ## Where a page goes -/

namespace Outcome

variable {files : FileTree} {page : Text}

theorem ofPage_some {l : Location} {outcome : Outcome}
    (h : ofPage files page (some l) = .ok outcome) :
    files.write l page = .ok outcome.files ∧ outcome.printed = [] := by
  obtain ⟨tree, hw, rfl⟩ := Except.map_eq_ok_iff.1 h
  exact ⟨Except.mapError_eq_ok_iff.1 hw, rfl⟩

theorem exists_of_ofPage_eq_error {output? : Option Location} {e : Error}
    (h : ofPage files page output? = .error e) :
    ∃ l e', output? = some l ∧ files.write l page = .error e' := by
  cases output? with
  | none => cases h
  | some l =>
    obtain ⟨e', hw, -⟩ := Except.mapError_eq_error_iff.1 (Except.map_eq_error_iff.1 h)
    exact ⟨l, e', rfl, hw⟩

end Outcome

/-! ## Commands -/

theorem Settings.check_eq_ok_iff {settings : Settings} {files : FileTree} :
    settings.check files = .ok () ↔
      ∀ finding ∈ settings.findings files, finding.severity.isFatal = false := by
  have hfatal : ((settings.findings files).filter (·.severity.isFatal)).isEmpty = true ↔
      ∀ finding ∈ settings.findings files, finding.severity.isFatal = false := by
    simp [List.isEmpty_iff, List.filter_eq_nil_iff]
  rw [← hfatal]
  simp only [check]
  split <;> simp_all

namespace Command

variable {settings : Settings} {files : FileTree} {command : Command}

/-- **A command that ends well** has checked the project, or made a page. -/
theorem of_run_eq_ok {outcome : Outcome} (h : command.run settings files = .ok outcome) :
    command = .check ∧ settings.check files = .ok () ∧ outcome = { files } ∨
      ∃ page, command.Makes settings files page ∧
        Outcome.ofPage files page (output? command) = .ok outcome := by
  cases command with
  | check =>
    left
    obtain ⟨⟨⟩, hc, h⟩ := Except.bind_eq_ok_iff.1 h
    cases h
    exact ⟨rfl, hc, rfl⟩
  | errorPage code subtitle message output? =>
    right
    obtain ⟨page, hp, h⟩ := Except.bind_eq_ok_iff.1 h
    exact ⟨page, .errorPage hp, h⟩
  | render template data? routes? output? =>
    right
    obtain ⟨context, hc, h⟩ := Except.bind_eq_ok_iff.1 h
    obtain ⟨engine, he, h⟩ := Except.bind_eq_ok_iff.1 h
    obtain ⟨page, hp, h⟩ := Except.bind_eq_ok_iff.1 h
    exact ⟨page, .render hc he hp, h⟩

/-- **A command that fails** does so in one of its steps. -/
theorem fails_of_run_eq_error {e : Error} (h : command.run settings files = .error e) :
    command.Fails settings files := by
  have houtput : ∀ page, command.Makes settings files page → command.Fails settings files := by
    intro page hm
    rw [run_of_makes hm] at h
    obtain ⟨l, e', ho, hw⟩ := Outcome.exists_of_ofPage_eq_error h
    exact .output hm ho hw
  cases command with
  | check =>
    by_cases hall : ∀ finding ∈ settings.findings files, finding.severity.isFatal = false
    · rw [run, Settings.check_eq_ok_iff.2 hall] at h
      cases h
    · obtain ⟨finding, hm, hf⟩ : ∃ finding ∈ settings.findings files,
          finding.severity.isFatal = true := by simpa using hall
      exact .check hm hf
  | errorPage code subtitle message output? =>
    cases hp : (Engine.ofSettings settings files).renderErrorPage code subtitle message with
    | error e => exact .errorPage hp
    | ok page => exact houtput page (.errorPage hp)
  | render template data? routes? output? =>
    cases hc : Command.context files data? with
    | error e => exact .data hc
    | ok context =>
      cases he : Command.engine settings files routes? with
      | error e => exact .routes he
      | ok engine =>
        cases hp : engine.render template context with
        | error e => exact .rendering hc he hp
        | ok page => exact houtput page (.render hc he hp)

/-- **No command gets past a step that fails.** -/
theorem Fails.run_ne_ok (h : command.Fails settings files) (outcome : Outcome) :
    command.run settings files ≠ .ok outcome := by
  intro hrun
  rcases of_run_eq_ok hrun with ⟨rfl, hcheck, -⟩ | ⟨page, hm, hpage⟩
  · cases h with
    | check hmem hf => exact absurd (Settings.check_eq_ok_iff.1 hcheck _ hmem) (by simp [hf])
    | output hp ho => cases ho
  · cases h with
    | check => cases hm
    | data h =>
      obtain ⟨⟩ | ⟨hc, -, -⟩ := hm
      cases h.symm.trans hc
    | routes h =>
      obtain ⟨⟩ | ⟨-, he, -⟩ := hm
      cases h.symm.trans he
    | rendering hc he h =>
      have hmade := hm
      cases hmade with
      | render hc' he' h' =>
        obtain rfl := Except.ok.inj (hc.symm.trans hc')
        obtain rfl := Except.ok.inj (he.symm.trans he')
        cases h.symm.trans h'
    | errorPage h =>
      cases hm with
      | errorPage h' => cases h.symm.trans h'
    | output hp ho h =>
      obtain rfl := hp.unique hm
      rw [ho] at hpage
      cases h.symm.trans (Outcome.ofPage_some hpage).1

end Command

/-! ## Runs -/

namespace Program

variable {words : List Text} {environment : Environment} {files : FileTree}

/-- A step of a run fails: the command line is wrong, the settings cannot be read, or the command
fails. -/
inductive Fails (words : List Text) (environment : Environment) (files : FileTree) : Prop where
  | arguments {f : Arguments.Fault} (h : Invocation.ofArguments words = .error (.fault f))
  | settings {invocation : Invocation} {e : Error} (hi : Invocation.ofArguments words = .ok invocation)
    (h : invocation.settings environment files = .error e)
  | command {invocation : Invocation} {settings : Settings}
    (hi : Invocation.ofArguments words = .ok invocation)
    (hs : invocation.settings environment files = .ok settings)
    (h : invocation.command.Fails settings files)

theorem exitCode_ne_zero (e : Error) : exitCode e ≠ 0 := by
  unfold exitCode
  split <;> decide

/-- The ways in which a run ends. -/
theorem run_cases (words : List Text) (environment : Environment) (files : FileTree) :
    (∃ e, run words environment files = failed files e ∧ Fails words environment files) ∨
    (∃ text, run words environment files = ⟨0, none, files, text⟩ ∧
      ∃ stop, Invocation.ofArguments words = .error stop ∧ ∀ f, stop ≠ .fault f) ∨
    ∃ invocation settings outcome, Invocation.ofArguments words = .ok invocation ∧
      invocation.settings environment files = .ok settings ∧
      invocation.command.run settings files = .ok outcome ∧
      run words environment files = ⟨0, none, outcome.files, outcome.printed⟩ := by
  unfold run
  cases hi : Invocation.ofArguments words with
  | error stop =>
    cases stop with
    | help => exact .inr (.inl ⟨_, rfl, .help, rfl, by simp⟩)
    | version => exact .inr (.inl ⟨_, rfl, .version, rfl, by simp⟩)
    | fault f => exact .inl ⟨_, rfl, .arguments hi⟩
  | ok invocation =>
    simp only [Invocation.run]
    cases hs : invocation.settings environment files with
    | error e => exact .inl ⟨e, rfl, .settings hi hs⟩
    | ok settings =>
      simp only [bind, Except.bind]
      cases hc : invocation.command.run settings files with
      | error e => exact .inl ⟨e, rfl, .command hi hs (Command.fails_of_run_eq_error hc)⟩
      | ok outcome => exact .inr (.inr ⟨invocation, settings, outcome, rfl, hs, hc, rfl⟩)

/-- **A run fails exactly if one of its steps does.** -/
theorem code_ne_zero_iff :
    (run words environment files).code ≠ 0 ↔ Fails words environment files := by
  rcases run_cases words environment files with ⟨e, hrun, hf⟩ | ⟨text, hrun, stop, hi, hstop⟩ |
    ⟨invocation, settings, outcome, hi, hs, hc, hrun⟩
  · rw [hrun]
    exact ⟨fun _ => hf, fun _ => exitCode_ne_zero e⟩
  · rw [hrun]
    refine ⟨fun h => absurd rfl h, ?_⟩
    rintro (h | ⟨h, -⟩ | ⟨h, -⟩)
    · exact absurd (Except.error.inj (hi.symm.trans h)) (hstop _)
    · cases hi.symm.trans h
    · cases hi.symm.trans h
  · rw [hrun]
    refine ⟨fun h => absurd rfl h, ?_⟩
    rintro (h | ⟨h, hs'⟩ | ⟨h, hs', hf⟩)
    · cases hi.symm.trans h
    · obtain rfl := Except.ok.inj (hi.symm.trans h)
      cases hs.symm.trans hs'
    · obtain rfl := Except.ok.inj (hi.symm.trans h)
      obtain rfl := Except.ok.inj (hs.symm.trans hs')
      exact absurd hc (hf.run_ne_ok outcome)

end Program

end Stencil
