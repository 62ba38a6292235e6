import Stencil.Project.Check
import Stencil.Proofs.Files.Slashes
import Stencil.Proofs.Render.Failure
import Stencil.Proofs.Render.Unopened

/-!
# The error page, checked and rendered

A check and the renderer each have their own way to the error page: the check goes from the template
directory to the directory of the error page and on to the file, and the renderer asks for a template
whose name has that directory in front, with a slash behind it. Both come to the same file
(`find_requested`), so that a check warns exactly if error pages fall back to a plain line
(`check_predicts_fallback`); unless the directory of the error page is the empty text, for then the
name begins with the slash and is looked for at the root.
-/

namespace Stencil

/-! ## The two ways to the error page -/

namespace Settings

variable (settings : Settings)

/-- The file of the error page in its directory. -/
def errorPageFile : Text :=
  if settings.templateExtension.isEmpty then Engine.errorTemplate
  else Engine.errorTemplate ++ '.' :: settings.templateExtension

/-- Where the renderer looks for the error page. -/
def requestedLocation : Location :=
  Loader.resolve settings.templateDir settings.templateExtension
    (settings.errorDir ++ '/' :: Engine.errorTemplate) []

/-- Whether a check warns that the error page does not exist. -/
def WarnsOfErrorPage (files : FileTree) : Prop :=
  "templates.W002".toList ∈ (settings.findings files).map Finding.id

theorem isAbsolute_errorPageFile : Location.isAbsolute settings.errorPageFile = false := by
  unfold errorPageFile
  split <;> rfl

theorem errorPageLocation_eq : settings.errorPageLocation =
    (settings.templateDir.push settings.errorDir).push settings.errorPageFile := rfl

theorem requestedLocation_eq :
    settings.requestedLocation =
      settings.templateDir.push (settings.errorDir ++ '/' :: settings.errorPageFile) := by
  unfold requestedLocation Loader.resolve errorPageFile
  cases settings.templateExtension.isEmpty <;> simp

variable {settings} {files : FileTree}

/-- The text with a slash at its end makes the location of the request one byte longer. -/
theorem exists_requestedLocation_doubled (h : settings.errorDir.getLast? = some '/') :
    ∃ a b, settings.errorPageLocation = a ++ '/' :: b ∧
      settings.requestedLocation = a ++ '/' :: '/' :: b := by
  have hne : settings.errorDir ≠ [] := by
    intro he
    rw [he] at h
    cases h
  rw [errorPageLocation_eq, requestedLocation_eq]
  rcases Location.push_push settings.templateDir hne settings.isAbsolute_errorPageFile with
    ⟨hlast, -⟩ | ⟨-, a, hchecked, hrequested⟩
  · exact absurd h hlast
  · exact ⟨a, _, hchecked, hrequested⟩

/-- **The check and the renderer find the same thing** where they look for the error page. -/
theorem find_requested (hne : settings.errorDir ≠ [])
    (hlimit : settings.errorDir.getLast? = some '/' →
      Text.utf8Size settings.errorPageLocation + 1 ≠ FileTree.locationLimit) :
    files.find settings.requestedLocation = files.find settings.errorPageLocation := by
  by_cases hlast : settings.errorDir.getLast? = some '/'
  · obtain ⟨a, b, hchecked, hrequested⟩ := exists_requestedLocation_doubled hlast
    have hl := hlimit hlast
    rw [hchecked] at hl ⊢
    rw [hrequested]
    exact files.find_congr (files.place_doubled hl)
  · rw [errorPageLocation_eq, requestedLocation_eq]
    rcases Location.push_push settings.templateDir hne settings.isAbsolute_errorPageFile with
      ⟨-, hsame⟩ | ⟨h, -⟩
    · rw [hsame]
    · exact absurd h hlast

theorem requestedLocation_of_empty (h : settings.errorDir = []) :
    settings.requestedLocation = '/' :: settings.errorPageFile := by
  rw [requestedLocation_eq, h]
  exact Location.push_of_isAbsolute rfl

theorem isFile_requested_of_long (h : settings.errorDir.getLast? = some '/')
    (hlimit : Text.utf8Size settings.errorPageLocation + 1 = FileTree.locationLimit) :
    files.isFile settings.requestedLocation = false := by
  obtain ⟨a, b, hchecked, hrequested⟩ := exists_requestedLocation_doubled h
  refine files.isFile_of_long ?_
  have hslash : '/'.utf8Size = 1 := by decide
  rw [hchecked] at hlimit
  rw [hrequested]
  simp only [Text.utf8Size_append, Text.utf8Size, hslash] at hlimit ⊢
  omega

/-- A check warns of the error page if it is no file. -/
theorem warnsOfErrorPage_iff (hdir : files.isDirectory settings.templateDir = true) :
    settings.WarnsOfErrorPage files ↔ files.isFile settings.errorPageLocation = false := by
  unfold WarnsOfErrorPage findings
  rw [hdir]
  cases files.isFile settings.errorPageLocation <;>
    cases files.isDirectory settings.includesLocation <;>
    cases settings.staticUrl.isEmpty <;> simp

end Settings

/-! ## Rendering the error page -/

/-- Whether the file at a location, if there is one, is text in which nothing is opened: no body of a
block, a loop or a condition, no parent and no other template. -/
def FileTree.HoldsUnopened (files : FileTree) (l : Location) : Prop :=
  ∀ content?, files.find l = .ok (.file content?) →
    ∃ source, content? = some source ∧ ∀ line ∈ splitLines source, opened line = []

namespace Engine

/-- The data of an error page. -/
def errorData (code : Nat) (subtitle message : Text) : Context := Context.ofList
  [("code".toList, .int code), ("subtitle".toList, .str subtitle), ("message".toList, .str message)]

/-- Whether the template for an error page is not found. -/
def LacksErrorPage (engine : Engine) (code : Nat) (subtitle message : Text) : Prop :=
  ∃ detail, engine.render (engine.errorDir ++ '/' :: errorTemplate)
    (errorData code subtitle message) = .error (.templateNotFound detail)

variable {engine : Engine} {settings : Settings} {files : FileTree}
  {code : Nat} {subtitle message : Text}

theorem LacksErrorPage.renderErrorPage_eq (h : engine.LacksErrorPage code subtitle message) :
    engine.renderErrorPage code subtitle message =
      .ok (Text.ofNat code ++ ' ' :: subtitle ++ ": ".toList ++ message) := by
  obtain ⟨detail, h⟩ := h
  unfold errorData at h
  simp only [renderErrorPage, h]

theorem renderErrorPage_of_page {page : Text}
    (h : engine.render (engine.errorDir ++ '/' :: errorTemplate)
      (errorData code subtitle message) = .ok page) :
    engine.renderErrorPage code subtitle message = .ok page := by
  unfold errorData at h
  simp only [renderErrorPage, h]

/-- A project's engine reads its templates from the template directory. -/
theorem loadLines_ofSettings (name : Text) :
    (ofSettings settings files).loadLines name [] =
      (Loader.directory settings.templateDir settings.templateExtension).loadLines files name [] :=
  rfl

/-- Where no file is, no template is found. -/
theorem lacksErrorPage_of_not_isFile (h : files.isFile settings.requestedLocation = false) :
    (ofSettings settings files).LacksErrorPage code subtitle message := by
  have hl : ∃ detail, (ofSettings settings files).loadLines
      (settings.errorDir ++ '/' :: errorTemplate) [] = .error (.templateNotFound detail) := by
    rw [loadLines_ofSettings, Loader.loadLines, Loader.load]
    simp only [show files.isFile (Loader.resolve settings.templateDir settings.templateExtension
      (settings.errorDir ++ '/' :: errorTemplate) []) = false from h]
    exact ⟨_, rfl⟩
  obtain ⟨detail, hl⟩ := hl
  exact ⟨detail, renderWithin_eq_error_iff.2 (by rw [Render.outcome_load_eq]; exact hl ▸ rfl)⟩

/-- A file in which nothing is opened is a template that comes to a page. -/
theorem exists_page_of_isFile (h : files.isFile settings.requestedLocation = true)
    (hplain : files.HoldsUnopened settings.requestedLocation) (context : Context) :
    ∃ page, (ofSettings settings files).render (settings.errorDir ++ '/' :: errorTemplate) context =
      .ok page := by
  obtain ⟨content?, hfind⟩ := files.isFile_iff.1 h
  obtain ⟨source, rfl, hopened⟩ := hplain content? hfind
  have hread : files.read settings.requestedLocation = .ok source := by
    rw [FileTree.read, hfind]
    rfl
  have hl : (ofSettings settings files).loadLines (settings.errorDir ++ '/' :: errorTemplate) [] =
      .ok (splitLines source) := by
    rw [loadLines_ofSettings, Loader.loadLines, Loader.load]
    simp only [show Loader.resolve settings.templateDir settings.templateExtension
      (settings.errorDir ++ '/' :: errorTemplate) [] = settings.requestedLocation from rfl, h, hread]
    rfl
  exact ⟨_, render_unopened hl hopened⟩

end Engine

namespace Settings

variable {settings : Settings} {files : FileTree}

/-- **A check warns of the error page exactly if error pages fall back** to a plain line. This holds
of every directory for the error page that is not the empty text, unless the slash at its end makes
the location of the request too long. Where one of these is not so, the error page falls back also
if the check finds it: behind an empty text nothing but the root is looked at. -/
theorem check_predicts_fallback (hdir : files.isDirectory settings.templateDir = true)
    (hplain : files.HoldsUnopened settings.errorPageLocation) (code : Nat)
    (subtitle message : Text) :
    let engine := Engine.ofSettings settings files
    (settings.errorDir ≠ [] →
      (settings.errorDir.getLast? = some '/' →
        Text.utf8Size settings.errorPageLocation + 1 ≠ FileTree.locationLimit) →
      (settings.WarnsOfErrorPage files ↔ engine.LacksErrorPage code subtitle message) ∧
      (settings.WarnsOfErrorPage files → engine.renderErrorPage code subtitle message =
        .ok (Text.ofNat code ++ ' ' :: subtitle ++ ": ".toList ++ message)) ∧
      (¬ settings.WarnsOfErrorPage files → ∃ page,
        engine.render (settings.errorDir ++ '/' :: Engine.errorTemplate)
          (Engine.errorData code subtitle message) = .ok page ∧
        engine.renderErrorPage code subtitle message = .ok page)) ∧
    (settings.errorDir = [] → files.isFile ('/' :: settings.errorPageFile) = false →
      engine.LacksErrorPage code subtitle message) ∧
    (settings.errorDir.getLast? = some '/' →
      Text.utf8Size settings.errorPageLocation + 1 = FileTree.locationLimit →
      engine.LacksErrorPage code subtitle message) := by
  refine ⟨fun hne hlimit => ?_, fun hempty hroot => ?_, fun hlast hlong => ?_⟩
  · have hfind : files.find settings.requestedLocation = files.find settings.errorPageLocation :=
      find_requested hne hlimit
    have hfile : files.isFile settings.requestedLocation =
        files.isFile settings.errorPageLocation := by
      rw [FileTree.isFile, FileTree.isFile, hfind]
    rw [warnsOfErrorPage_iff hdir, ← hfile]
    cases hf : files.isFile settings.requestedLocation with
    | false =>
      have hlacks : (Engine.ofSettings settings files).LacksErrorPage code subtitle message :=
        Engine.lacksErrorPage_of_not_isFile hf
      exact ⟨iff_of_true rfl hlacks, fun _ => hlacks.renderErrorPage_eq, fun h => absurd rfl h⟩
    | true =>
      obtain ⟨page, hpage⟩ := Engine.exists_page_of_isFile hf
        (fun content? hc => hplain content? (hfind ▸ hc)) (Engine.errorData code subtitle message)
      refine ⟨iff_of_false (by simp) ?_, fun h => absurd h (by simp), fun _ =>
        ⟨page, hpage, Engine.renderErrorPage_of_page hpage⟩⟩
      rintro ⟨detail, h⟩
      cases hpage.symm.trans h
  · exact Engine.lacksErrorPage_of_not_isFile (requestedLocation_of_empty hempty ▸ hroot)
  · exact Engine.lacksErrorPage_of_not_isFile (isFile_requested_of_long hlast hlong)

/-- The template directory, with an error page in it and in a directory below it. -/
def errorPages : FileTree where
  nodes :=
    [(["templates".toList], .directory),
     (["error_generic.html".toList, "templates".toList], .file (some "Oops".toList)),
     (["errors".toList, "templates".toList], .directory),
     (["error_generic.html".toList, "errors".toList, "templates".toList],
      .file (some "Oops \x7b\x7b code \x7d\x7d".toList))]

theorem holdsUnopened_errorPages {l : Location} (source : Text)
    (hfind : errorPages.find l = .ok (.file (some source)))
    (h : ∀ line ∈ splitLines source, opened line = []) : errorPages.HoldsUnopened l := by
  intro content? hc
  cases hfind.symm.trans hc
  exact ⟨source, rfl, h⟩

/-- A slash behind the directory makes no difference. Without a directory, the check finds a page
that the renderer does not find. -/
theorem check_predicts_fallback_slash :
    (¬ WarnsOfErrorPage { errorDir := "errors/".toList } errorPages ∧
      ∃ page, (Engine.ofSettings { errorDir := "errors/".toList } errorPages).renderErrorPage 404
        "Not Found".toList "gone".toList = .ok page) ∧
    ¬ WarnsOfErrorPage { errorDir := [] } errorPages ∧
      (Engine.ofSettings { errorDir := [] } errorPages).LacksErrorPage 404
        "Not Found".toList "gone".toList := by
  have hslash : ¬ WarnsOfErrorPage { errorDir := "errors/".toList } errorPages := by
    rw [warnsOfErrorPage_iff (by decide +kernel)]
    decide +kernel
  have hnone : ¬ WarnsOfErrorPage { errorDir := [] } errorPages := by
    rw [warnsOfErrorPage_iff (by decide +kernel)]
    decide +kernel
  have hdirectory : ∀ settings : Settings, settings.templateDir = "templates".toList →
      errorPages.isDirectory settings.templateDir = true := by
    intro settings h
    rw [h]
    decide +kernel
  have hcode : errorPages.HoldsUnopened
      (errorPageLocation { errorDir := "errors/".toList }) :=
    holdsUnopened_errorPages "Oops \x7b\x7b code \x7d\x7d".toList (by rfl) (by decide +kernel)
  have hplain : errorPages.HoldsUnopened (errorPageLocation { errorDir := [] }) :=
    holdsUnopened_errorPages "Oops".toList (by rfl) (by decide +kernel)
  obtain ⟨page, -, hpage⟩ := ((check_predicts_fallback (hdirectory _ rfl) hcode 404
    "Not Found".toList "gone".toList).1 (by decide) (fun _ => by decide +kernel)).2.2 hslash
  refine ⟨⟨hslash, page, hpage⟩, hnone, ?_⟩
  exact (check_predicts_fallback (hdirectory _ rfl) hplain 404
    "Not Found".toList "gone".toList).2.1 rfl (by decide +kernel)

end Settings

end Stencil
