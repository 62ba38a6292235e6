import Mathlib.Tactic.Choose
import Stencil.Proofs.Json.Merge
import Stencil.Proofs.Text.Split
import Stencil.Settings.Environment
import Stencil.Settings.Reader

/-!
# Where a setting comes from

A setting is what its variable says, or else what the file says, or else the default
(`Key.Follows`). Between the file and the settings stand the defaults as an object, a merge and a
reader of the result. The merge keeps the defaults where the file says nothing and the values of the
file everywhere else (`get?_merged`): no default is an object with entries, so that nothing is ever
merged deeper than at the keys themselves.

`ofFileAs_override` says this of all settings at once, and what does not count: the variables of
other settings, and all keys that are none of a setting.
-/

namespace Stencil.Settings

/-- The settings, by name. -/
inductive Key where
  | debug
  | templateDir
  | templateExtension
  | includesDir
  | errorDir
  | staticUrl
  | logLevel
  | extra
deriving DecidableEq, Repr

namespace Key

/-- What a setting holds. -/
abbrev Kind : Key → Type
  | debug => Bool
  | includesDir => List Text
  | extra => List (Text × Json)
  | _ => Text

/-- The key of the setting in a file. -/
def word : Key → Text
  | debug => "debug".toList
  | templateDir => "template_dir".toList
  | templateExtension => "template_extension".toList
  | includesDir => "includes_dir".toList
  | errorDir => "error_dir".toList
  | staticUrl => "static_url".toList
  | logLevel => "log_level".toList
  | extra => "extra".toList

/-- The variable of the setting, without what the names of all variables begin with. -/
def variableName? : Key → Option String
  | debug => some "DEBUG"
  | templateDir => some "TEMPLATE_DIR"
  | templateExtension => some "TEMPLATE_EXTENSION"
  | includesDir => some "INCLUDES_DIR"
  | errorDir => some "ERROR_DIR"
  | staticUrl => some "STATIC_URL"
  | logLevel => some "LOG_LEVEL"
  | extra => none

/-- What the environment says about the setting. -/
def said? (key : Key) (environment : Environment) : Option Text :=
  key.variableName?.bind environment.get?

/-- The setting that a text of the environment stands for. There is none for the extra ones. -/
def ofVariable : (key : Key) → Text → key.Kind
  | debug, t => Environment.saysYes t
  | includesDir, t => Environment.items t
  | extra, _ => []
  | templateDir, t | templateExtension, t | errorDir, t | staticUrl, t | logLevel, t => t

/-- The setting that a value of a file stands for, if it is of the right kind. -/
def ofValue? : (key : Key) → Json → Option key.Kind
  | debug, j => j.bool?
  | includesDir, j => j.texts?
  | extra, j => j.entries?
  | templateDir, j | templateExtension, j | errorDir, j | staticUrl, j | logLevel, j => j.str?

/-- The setting among all settings. -/
def of (settings : Settings) : (key : Key) → key.Kind
  | debug => settings.debug
  | templateDir => settings.templateDir
  | templateExtension => settings.templateExtension
  | includesDir => settings.includesDir
  | errorDir => settings.errorDir
  | staticUrl => settings.staticUrl
  | logLevel => settings.logLevel
  | extra => settings.extra

/-- The default of the setting, as an object holds it. -/
def defaultValue : Key → Json
  | debug => .bool false
  | templateDir => .str "templates".toList
  | templateExtension => .str "html".toList
  | includesDir => .arr [.str "includes".toList]
  | errorDir => .str "errors".toList
  | staticUrl => .str "assets".toList
  | logLevel => .str "info".toList
  | extra => .obj []

/-- **Where a setting comes from**: its variable if that is set, else the file if it has the key, else
the default. -/
def Follows (key : Key) (entries : List (Text × Json)) (environment : Environment)
    (settings : Settings) : Prop :=
  match key.said? environment with
  | some t => key.of settings = key.ofVariable t
  | none =>
    match Entries.get? key.word entries with
    | some j => key.ofValue? j = some (key.of settings)
    | none => key.of settings = key.of {}

theorem ofValue?_defaultValue (key : Key) : key.ofValue? key.defaultValue = some (key.of {}) := by
  cases key <;> rfl

/-- A value in the place of a default is not merged with it. -/
theorem merge_defaultValue {j : Json} (h : j.IsOrdered) (key : Key) :
    key.defaultValue.merge j = j := by
  cases key with
  | extra => exact Json.merge_empty h
  | _ => exact Json.merge_of_not_isObject_left (fun ⟨_, e⟩ => by cases e) j

end Key

/-! ## The file over the defaults -/

/-- The defaults as entries. -/
def defaultEntries : List (Text × Json) :=
  Entries.ofList ([.debug, .templateDir, .templateExtension, .includesDir, .errorDir, .staticUrl,
    .logLevel, .extra].map fun key : Key => (key.word, key.defaultValue))

theorem toJson_default : toJson {} = .obj defaultEntries := rfl

theorem get?_defaultEntries (key : Key) :
    Entries.get? key.word defaultEntries = some key.defaultValue := by
  cases key <;> rfl

/-- **What the reader finds at a key**: the value of the file, or else the default. -/
theorem get?_merged {entries : List (Text × Json)} (h : (Json.obj entries).IsOrdered) (key : Key) :
    Entries.get? key.word (Json.mergeEntries defaultEntries entries) =
      some ((Entries.get? key.word entries).getD key.defaultValue) := by
  cases h with
  | obj hs hall =>
    rw [Json.get?_mergeEntries hs]
    cases hget : Entries.get? key.word entries with
    | none => exact get?_defaultEntries key
    | some j =>
      rw [get?_defaultEntries key]
      exact congrArg some (key.merge_defaultValue (hall _ (Entries.mem_of_get? hget)))

/-- All settings are read, each from its own value. -/
theorem ofValues?_eq_some_iff (value : Key → Json) {settings : Settings} :
    ofValues? (value .debug) (value .templateDir) (value .templateExtension) (value .includesDir)
        (value .errorDir) (value .staticUrl) (value .logLevel) (value .extra) = some settings ↔
      ∀ key : Key, key.ofValue? (value key) = some (key.of settings) := by
  constructor
  · intro h
    obtain ⟨debug, h₁, h⟩ := Option.bind_eq_some_iff.1 h
    obtain ⟨templateDir, h₂, h⟩ := Option.bind_eq_some_iff.1 h
    obtain ⟨templateExtension, h₃, h⟩ := Option.bind_eq_some_iff.1 h
    obtain ⟨includesDir, h₄, h⟩ := Option.bind_eq_some_iff.1 h
    obtain ⟨errorDir, h₅, h⟩ := Option.bind_eq_some_iff.1 h
    obtain ⟨staticUrl, h₆, h⟩ := Option.bind_eq_some_iff.1 h
    obtain ⟨logLevel, h₇, h⟩ := Option.bind_eq_some_iff.1 h
    obtain ⟨extra, h₈, h⟩ := Option.bind_eq_some_iff.1 h
    obtain rfl := Option.some.inj h
    intro key
    cases key with
    | debug => exact h₁
    | templateDir => exact h₂
    | templateExtension => exact h₃
    | includesDir => exact h₄
    | errorDir => exact h₅
    | staticUrl => exact h₆
    | logLevel => exact h₇
    | extra => exact h₈
  · intro h
    exact Option.bind_eq_some_iff.2 ⟨_, h .debug, Option.bind_eq_some_iff.2 ⟨_, h .templateDir,
      Option.bind_eq_some_iff.2 ⟨_, h .templateExtension, Option.bind_eq_some_iff.2 ⟨_,
      h .includesDir, Option.bind_eq_some_iff.2 ⟨_, h .errorDir, Option.bind_eq_some_iff.2 ⟨_,
      h .staticUrl, Option.bind_eq_some_iff.2 ⟨_, h .logLevel, Option.bind_eq_some_iff.2 ⟨_,
      h .extra, rfl⟩⟩⟩⟩⟩⟩⟩⟩

/-- All settings are read, each from its own key. -/
theorem ofJson?_eq_some_iff {entries : List (Text × Json)} {settings : Settings} :
    ofJson? (.obj entries) = some settings ↔
      ∀ key : Key, (Entries.get? key.word entries).bind key.ofValue? = some (key.of settings) := by
  constructor
  · intro h
    obtain ⟨j₁, h₁, h⟩ := Option.bind_eq_some_iff.1 h
    obtain ⟨j₂, h₂, h⟩ := Option.bind_eq_some_iff.1 h
    obtain ⟨j₃, h₃, h⟩ := Option.bind_eq_some_iff.1 h
    obtain ⟨j₄, h₄, h⟩ := Option.bind_eq_some_iff.1 h
    obtain ⟨j₅, h₅, h⟩ := Option.bind_eq_some_iff.1 h
    obtain ⟨j₆, h₆, h⟩ := Option.bind_eq_some_iff.1 h
    obtain ⟨j₇, h₇, h⟩ := Option.bind_eq_some_iff.1 h
    obtain ⟨j₈, h₈, h⟩ := Option.bind_eq_some_iff.1 h
    let value : Key → Json
      | .debug => j₁
      | .templateDir => j₂
      | .templateExtension => j₃
      | .includesDir => j₄
      | .errorDir => j₅
      | .staticUrl => j₆
      | .logLevel => j₇
      | .extra => j₈
    have hget : ∀ key : Key, Entries.get? key.word entries = some (value key) := by
      intro key
      cases key with
      | debug => exact h₁
      | templateDir => exact h₂
      | templateExtension => exact h₃
      | includesDir => exact h₄
      | errorDir => exact h₅
      | staticUrl => exact h₆
      | logLevel => exact h₇
      | extra => exact h₈
    intro key
    rw [hget key]
    exact (ofValues?_eq_some_iff value).1 h key
  · intro h
    choose value hget hvalue using fun key => Option.bind_eq_some_iff.1 (h key)
    have hread := (ofValues?_eq_some_iff value).2 hvalue
    exact Option.bind_eq_some_iff.2 ⟨_, hget .debug, Option.bind_eq_some_iff.2 ⟨_,
      hget .templateDir, Option.bind_eq_some_iff.2 ⟨_, hget .templateExtension,
      Option.bind_eq_some_iff.2 ⟨_, hget .includesDir, Option.bind_eq_some_iff.2 ⟨_,
      hget .errorDir, Option.bind_eq_some_iff.2 ⟨_, hget .staticUrl, Option.bind_eq_some_iff.2 ⟨_,
      hget .logLevel, Option.bind_eq_some_iff.2 ⟨_, hget .extra, hread⟩⟩⟩⟩⟩⟩⟩⟩

/-- **Loading an object**: each setting is read from the file, or is the default. -/
theorem ofOverrides_eq_ok_iff {format : Format} {entries : List (Text × Json)} {settings : Settings}
    (h : (Json.obj entries).IsOrdered) :
    ofOverrides format (.obj entries) = .ok settings ↔
      ∀ key : Key, key.ofValue? ((Entries.get? key.word entries).getD key.defaultValue) =
        some (key.of settings) := by
  have hread : ofJson? (.obj (Json.mergeEntries defaultEntries entries)) = some settings ↔ _ :=
    ofJson?_eq_some_iff
  simp only [get?_merged h, Option.bind_some] at hread
  rw [← hread, ofOverrides, toJson_default, Json.merge_obj]
  cases ofJson? (.obj (Json.mergeEntries defaultEntries entries)) <;> simp

/-- **Only the keys of settings count.** -/
theorem ofOverrides_congr {format : Format} {entries entries' : List (Text × Json)}
    (h : (Json.obj entries).IsOrdered) (h' : (Json.obj entries').IsOrdered)
    (hget : ∀ key : Key, Entries.get? key.word entries' = Entries.get? key.word entries) :
    ofOverrides format (.obj entries') = ofOverrides format (.obj entries) := by
  have hiff : ∀ settings, ofOverrides format (.obj entries') = .ok settings ↔
      ofOverrides format (.obj entries) = .ok settings := by
    intro settings
    rw [ofOverrides_eq_ok_iff h, ofOverrides_eq_ok_iff h']
    simp only [hget]
  have herror : ∀ entries e, ofOverrides format (.obj entries) = .error e →
      e = .configuration ("Failed to deserialize settings from ".toList ++ format.name ++
        ": wrong kind of value".toList) := by
    intro entries e he
    unfold ofOverrides at he
    split at he <;> cases he
    rfl
  cases hload : ofOverrides format (.obj entries) with
  | ok settings => exact (hiff settings).2 hload
  | error e =>
    cases hload' : ofOverrides format (.obj entries') with
    | ok settings => rw [(hiff settings).1 hload'] at hload; cases hload
    | error e' => rw [herror entries e hload, herror entries' e' hload']

/-! ## The environment over the file -/

theorem of_override (settings : Settings) (environment : Environment) (key : Key) :
    key.of (settings.override environment) =
      ((key.said? environment).map key.ofVariable).getD (key.of settings) := by
  have htext : ∀ (said? : Option Text) (t : Text),
      said?.getD t = (said?.map fun t => t).getD t := by
    intro said? t
    cases said? <;> rfl
  cases key with
  | debug | includesDir | extra => rfl
  | _ => exact htext _ _

/-- A list of components, joined by commas, is read back. -/
theorem items_join {components : List Text}
    (h : ∀ c ∈ components, c ≠ [] ∧ ',' ∉ c ∧ c.trim = c) :
    Environment.items (Text.join [','] components) = components := by
  unfold Environment.items
  by_cases hne : components = []
  · subst hne
    rfl
  · rw [Text.splitOn_join hne fun c hc => (h c hc).2.1,
      List.map_congr_left fun c hc => (h c hc).2.2, List.map_id']
    exact List.filter_eq_self.2 fun c hc => by simpa using (h c hc).1

/-! ## Documents -/

/-- The value of a document. -/
def Format.document? : Format → Text → Option Json
  | toml, t => Toml.ofText? t
  | json, t => Json.ofText? t

theorem Format.isOrdered_document? {format : Format} {t : Text} {j : Json}
    (h : format.document? t = some j) : j.IsOrdered := by
  cases format with
  | toml => exact Toml.isOrdered_ofText? h
  | json => exact Json.isOrdered_ofText? h

theorem ofText_of_document? {format : Format} {t : Text} {j : Json}
    (h : format.document? t = some j) : ofText format t = ofOverrides format j := by
  cases format with
  | toml => exact (by simp only [ofText, show Toml.ofText? t = some j from h])
  | json => exact (by simp only [ofText, show Json.ofText? t = some j from h])

/-- A document that settings are read from is an object, unless it is a JSON array. -/
theorem exists_document?_of_ofText {format : Format} {t : Text} {settings : Settings}
    (h : ofText format t = .ok settings) :
    ∃ j, format.document? t = some j ∧ ∀ s, j ≠ .str s := by
  cases hdoc : format.document? t with
  | none =>
    cases format with
    | toml => simp only [ofText, show Toml.ofText? t = none from hdoc] at h; cases h
    | json => simp only [ofText, show Json.ofText? t = none from hdoc] at h; cases h
  | some j =>
    refine ⟨j, rfl, ?_⟩
    rintro s rfl
    rw [ofText_of_document? hdoc] at h
    cases h

/-- **Where settings come from.** When a file is loaded that holds a JSON object or a TOML document,
and the environment is applied, each setting follows its variable, the file and the default in this
order. A setting depends on its own variable only; a document with the same values at the keys of
settings loads as the same settings; and a list of components comes back from its variable. -/
theorem ofFileAs_override {format : Format} {files : FileTree} {l : Location} {t : Text}
    {loaded : Settings} (hread : files.read l = .ok t)
    (hobj : format = .json → ∃ entries, Json.ofText? t = some (.obj entries))
    (hload : ofFileAs format files l = .ok loaded) (environment : Environment) :
    ∃ entries, format.document? t = some (.obj entries) ∧
      (∀ key : Key, key.Follows entries environment (loaded.override environment)) ∧
      (∀ (key : Key) (environment' : Environment),
        (∀ name ∈ key.variableName?, environment'.get? name = environment.get? name) →
        key.of (loaded.override environment') = key.of (loaded.override environment)) ∧
      (∀ t' entries', format.document? t' = some (.obj entries') →
        (∀ key : Key, Entries.get? key.word entries' = Entries.get? key.word entries) →
        ofText format t' = .ok loaded) ∧
      ∀ components : List Text, (∀ c ∈ components, c ≠ [] ∧ ',' ∉ c ∧ c.trim = c) →
        environment.get? "INCLUDES_DIR" = some (Text.join [','] components) →
        (loaded.override environment).includesDir = components := by
  have htext : ofText format t = .ok loaded := by
    rw [ofFileAs, hread] at hload
    exact hload
  obtain ⟨entries, hdoc⟩ : ∃ entries, format.document? t = some (.obj entries) := by
    cases format with
    | json => exact hobj rfl
    | toml =>
      obtain ⟨j, hj, hstr⟩ := exists_document?_of_ofText htext
      rcases Toml.exists_of_ofText? hj with ⟨entries, rfl⟩ | ⟨s, rfl⟩
      · exact ⟨entries, hj⟩
      · exact absurd rfl (hstr s)
  have hordered := Format.isOrdered_document? hdoc
  rw [ofText_of_document? hdoc] at htext
  refine ⟨entries, hdoc, fun key => ?_, fun key environment' h => ?_, fun t' entries' hdoc' h => ?_,
    fun components hc henv => ?_⟩
  · have hfile := (ofOverrides_eq_ok_iff hordered).1 htext key
    unfold Key.Follows
    rw [of_override]
    cases key.said? environment with
    | some value => rfl
    | none =>
      cases hget : Entries.get? key.word entries with
      | some j =>
        rw [hget] at hfile
        exact hfile
      | none =>
        rw [hget] at hfile
        exact Option.some.inj (hfile.symm.trans key.ofValue?_defaultValue)
  · have hsaid : key.said? environment' = key.said? environment := by
      unfold Key.said?
      cases hv : key.variableName? with
      | none => rfl
      | some name => exact h name (by rw [hv]; rfl)
    rw [of_override, of_override, hsaid]
  · rw [ofText_of_document? hdoc', ← htext]
    exact ofOverrides_congr hordered (Format.isOrdered_document? hdoc') h
  · simp only [override, henv, Option.map_some, Option.getD_some, items_join hc]

/-- A settings file with a key that is none of a setting. -/
def siteText : Text :=
  "\x7b\"static_url\": \"/s\", \"extra\": \x7b\"a\": \"b\"\x7d, \"title\": null\x7d".toList

/-- A tree with that file. -/
def siteFiles : FileTree := { nodes := [(["site.json".toList], .file (some siteText))] }

theorem ofFileAs_override_site :
    let environment : Environment := [("NELUMBO_INCLUDES_DIR".toList, "parts,more parts".toList)]
    siteFiles.read "site.json".toList = .ok siteText ∧
      (∃ entries, Json.ofText? siteText = some (.obj entries)) ∧
      ∃ loaded, ofFileAs .json siteFiles "site.json".toList = .ok loaded ∧
        (loaded.override environment).includesDir = ["parts".toList, "more parts".toList] := by
  intro environment
  have hread : siteFiles.read "site.json".toList = .ok siteText := by decide +kernel
  have hobj : ∃ entries, Json.ofText? siteText = some (.obj entries) := by
    have h : ((Json.ofText? siteText).bind Json.entries?).isSome = true := by decide +kernel
    obtain ⟨entries, he⟩ := Option.isSome_iff_exists.1 h
    obtain ⟨j, hj, hentries⟩ := Option.bind_eq_some_iff.1 he
    cases j <;> cases hentries
    exact ⟨entries, hj⟩
  have hok : (ofFileAs .json siteFiles "site.json".toList).isOk = true := by decide +kernel
  cases hload : ofFileAs .json siteFiles "site.json".toList with
  | error e => rw [hload] at hok; cases hok
  | ok loaded =>
    obtain ⟨entries, -, -, -, -, hcomponents⟩ :=
      ofFileAs_override hread (fun _ => hobj) hload environment
    exact ⟨hread, hobj, loaded, rfl, hcomponents _ (by decide +kernel) (by decide +kernel)⟩

end Stencil.Settings
