import Stencil.Engine
import Stencil.Layer.Basic
import Stencil.Proofs.Tag.Scanning
import Stencil.Proofs.Text.Split

/-!
# The lines of a template

The lines of a layer are pieces of the source of a template. They hold no line end
(`newline_not_mem_of_loadLines`), and together they are no longer than all the text that the engine
may read (`sum_length_ofSource_le`); this bounds how deep bodies can be nested in a template.
`length_le_sourceSize` bounds the number of templates that differ from each other.
-/

namespace Stencil

/-! ## Pieces of a line -/

theorem Pattern.cut_source (fs : List Fragment) :
    (cut fs).1 ++ (cut fs).2.flatMap (fun p => p.1.source ++ p.2) = fs.flatMap Fragment.source := by
  induction fs with
  | nil => rfl
  | cons f fs ih =>
    cases f with
    | char c => simp [cut, Fragment.source, ← ih]
    | tag t => simp [cut, Fragment.source, ← ih]

theorem sublist_visible (t : Text) : (visible t).flatten.Sublist t := by
  unfold visible
  split <;> simp

/-- The pieces of a line are parts of it. -/
theorem flatten_splitStructural_sublist (t : Text) : (splitStructural t).flatten.Sublist t := by
  have hsource := Pattern.cut_source (Pattern.structural.scan t)
  rw [Pattern.flatMap_source_scan Pattern.anchored_structural] at hsource
  unfold splitStructural
  split
  · simp
  · next before tags _ heq =>
    rw [heq] at hsource
    have htags : ∀ tags : List (Tag × Text),
        (tags.flatMap fun p => p.1.source :: visible p.2).flatten.Sublist
          (tags.flatMap fun p => p.1.source ++ p.2) := by
      intro tags
      induction tags with
      | nil => simp
      | cons p tags ih =>
        simp only [List.flatMap_cons, List.flatten_append, List.flatten_cons]
        exact ((List.Sublist.refl _).append (sublist_visible _)).append ih
    have happ := (sublist_visible before).append (htags tags)
    rw [hsource] at happ
    rw [List.flatten_append]
    exact happ

theorem flatten_splitOn_sublist (sep : Char) (t : Text) :
    (Text.splitOn sep t).flatten.Sublist t := by
  induction t with
  | nil => simp [Text.splitOn]
  | cons c cs ih =>
    by_cases hc : c = sep
    · subst hc
      rw [Text.splitOn_sep]
      simpa using ih.cons c
    · obtain ⟨w, ws, hw, hws⟩ := Text.splitOn_cons hc cs
      rw [hw] at ih
      rw [hws]
      simpa using ih.cons_cons c

namespace Layer

theorem texts_linesOfSource (t : Text) : (linesOfSource t).map Line.text = splitStructural t := by
  unfold linesOfSource
  cases splitStructural t with
  | nil => rfl
  | cons first rest => simp [Function.comp_def]

/-- Nothing was done to a line of a template yet. -/
theorem eq_of_mem_ofSource {kind : LayerKind} {source : List Text} {line : Line}
    (h : line ∈ (ofSource kind source).lines) :
    line = { text := line.text, glued := line.glued } := by
  obtain ⟨t, -, hl⟩ := List.mem_flatMap.1 h
  unfold linesOfSource at hl
  split at hl
  · cases hl
  · rcases List.mem_cons.1 hl with rfl | hl
    · rfl
    · obtain ⟨text, -, rfl⟩ := List.mem_map.1 hl
      rfl

theorem texts_ofSource_sublist (kind : LayerKind) (source : List Text) :
    ((ofSource kind source).lines.map Line.text).flatten.Sublist source.flatten := by
  unfold ofSource
  induction source with
  | nil => simp
  | cons t source ih =>
    simp only [List.flatMap_cons, List.map_append, List.flatten_append, List.flatten_cons,
      texts_linesOfSource] at ih ⊢
    exact (flatten_splitStructural_sublist t).append ih

end Layer

/-! ## What an engine reads -/

namespace Engine

/-- All texts that the engine may read. -/
def sources (engine : Engine) : List Text :=
  engine.templates.map (·.2) ++
    engine.loaders.flatMap (fun
      | .table templates => templates.map (·.2)
      | .directory _ _ => []) ++
    engine.files.nodes.flatMap fun entry =>
      match entry.2 with
      | .file (some text) => [text]
      | _ => []

theorem length_flatten_sources (engine : Engine) :
    engine.sources.flatten.length = engine.sourceSize := by
  have hloaders : ∀ loaders : List Loader,
      (loaders.flatMap (fun
        | .table templates => templates.map (·.2)
        | .directory _ _ => [])).flatten =
      loaders.flatMap fun
        | .table templates => templates.flatMap (·.2)
        | .directory _ _ => [] := by
    intro loaders
    induction loaders with
    | nil => rfl
    | cons loader loaders ih =>
      rw [List.flatMap_cons, List.flatten_append, ih, List.flatMap_cons]
      cases loader <;> simp [List.flatMap]
  have hfiles : ∀ nodes : List (Place × Node),
      (nodes.flatMap fun entry =>
        match entry.2 with
        | .file (some text) => [text]
        | _ => []).flatten =
      nodes.flatMap fun entry =>
        match entry.2 with
        | .file (some text) => text
        | _ => [] := by
    intro nodes
    induction nodes with
    | nil => rfl
    | cons entry nodes ih =>
      rw [List.flatMap_cons, List.flatten_append, ih, List.flatMap_cons]
      congr 1
      split <;> simp
  unfold sources sourceSize
  rw [List.flatten_append, List.flatten_append, hloaders, hfiles, List.length_append,
    List.length_append]
  rfl

theorem mem_nodes_of_read {files : FileTree} {l : Location} {text : Text}
    (h : files.read l = .ok text) : ∃ entry ∈ files.nodes, entry.2 = .file (some text) := by
  unfold FileTree.read at h
  obtain ⟨node, hf, h⟩ := Except.bind_eq_ok_iff.1 h
  have hfile : node = .file (some text) := by
    split at h <;> cases h
    rfl
  subst hfile
  unfold FileTree.find at hf
  obtain ⟨place, -, hf⟩ := Except.bind_eq_ok_iff.1 hf
  have hnode : files.node? place = some (.file (some text)) := by
    split at hf <;> cases hf
    assumption
  unfold FileTree.node? at hnode
  split at hnode
  · cases hnode
  · obtain ⟨entry, he, hs⟩ := Option.map_eq_some_iff.1 hnode
    exact ⟨entry, List.mem_of_find?_eq_some he, hs⟩

/-- What a loader of the engine reads is one of its texts. -/
theorem mem_sources_of_load {engine : Engine} {loader : Loader}
    (hl : loader ∈ engine.loaders ∨ loader = .table engine.templates) {name : Text}
    {subdirs : List Text} {source : Text} (h : loader.load engine.files name subdirs = .ok source) :
    source ∈ engine.sources := by
  unfold sources
  cases loader with
  | directory root extension =>
    unfold Loader.load at h
    simp only at h
    split at h
    · obtain ⟨entry, hmem, he⟩ := mem_nodes_of_read (Except.mapError_eq_ok_iff.1 h)
      refine List.mem_append_right _ (List.mem_flatMap.2 ⟨entry, hmem, ?_⟩)
      rw [he]
      exact List.mem_singleton_self source
    · cases h
  | table templates =>
    unfold Loader.load at h
    simp only at h
    split at h
    · next found hg =>
      obtain rfl : found = source := by cases h; rfl
      have hmem : found ∈ templates.map (·.2) := List.mem_map.2 ⟨_, Entries.mem_of_get? hg, rfl⟩
      refine List.mem_append_left _ ?_
      rcases hl with hl | hl
      · exact List.mem_append_right _ (List.mem_flatMap.2 ⟨_, hl, hmem⟩)
      · obtain rfl := Loader.table.inj hl
        exact List.mem_append_left _ hmem
    · cases h

theorem exists_loader_of_loadFrom {files : FileTree} {name : Text} {subdirs lines : List Text}
    {loaders : List Loader} (h : loadFrom files name subdirs loaders = .ok lines) :
    ∃ loader ∈ loaders, loader.loadLines files name subdirs = .ok lines := by
  induction loaders with
  | nil => cases h
  | cons loader rest ih =>
    cases rest with
    | nil => exact ⟨loader, by simp, h⟩
    | cons next rest =>
      rw [loadFrom] at h
      split at h
      · next found hf =>
        cases h
        exact ⟨loader, by simp, hf⟩
      · obtain ⟨l, hl, hlines⟩ := ih h
        exact ⟨l, List.mem_cons_of_mem _ hl, hlines⟩

theorem exists_loader_of_loadLines {engine : Engine} {name : Text} {subdirs lines : List Text}
    (h : engine.loadLines name subdirs = .ok lines) :
    ∃ loader : Loader, (loader ∈ engine.loaders ∨ loader = .table engine.templates) ∧
      loader.loadLines engine.files name subdirs = .ok lines := by
  unfold loadLines at h
  split at h
  · next found hf =>
    cases h
    exact ⟨_, .inr rfl, hf⟩
  · obtain ⟨loader, hl, hlines⟩ := exists_loader_of_loadFrom h
    exact ⟨loader, .inl hl, hlines⟩

/-- **The lines of a template** are those of one of the engine's texts. -/
theorem exists_source_of_loadLines {engine : Engine} {name : Text} {subdirs lines : List Text}
    (h : engine.loadLines name subdirs = .ok lines) :
    ∃ source ∈ engine.sources, lines = splitLines source := by
  obtain ⟨loader, hl, hlines⟩ := exists_loader_of_loadLines h
  obtain ⟨source, hload, rfl⟩ := Except.map_eq_ok_iff.1 hlines
  exact ⟨source, mem_sources_of_load hl hload, rfl⟩

theorem newline_not_mem_of_loadLines {engine : Engine} {name : Text} {subdirs lines : List Text}
    (h : engine.loadLines name subdirs = .ok lines) {kind : LayerKind} {line : Line}
    (hl : line ∈ (Layer.ofSource kind lines).lines) : '\n' ∉ line.text := by
  obtain ⟨source, -, rfl⟩ := exists_source_of_loadLines h
  intro hc
  have hsub := Layer.texts_ofSource_sublist kind (splitLines source)
  have hm := hsub.subset (List.mem_flatten.2 ⟨line.text, List.mem_map_of_mem hl, hc⟩)
  obtain ⟨t, ht, hct⟩ := List.mem_flatten.1 hm
  exact Text.not_mem_of_mem_splitOn ht hct

/-- **The lines of a template** are no longer than what the engine counts. -/
theorem sum_length_ofSource_le {engine : Engine} {name : Text} {subdirs lines : List Text}
    (h : engine.loadLines name subdirs = .ok lines) (kind : LayerKind) :
    (((Layer.ofSource kind lines).lines.map Line.text).flatten).length ≤ engine.sourceSize := by
  obtain ⟨source, hmem, rfl⟩ := exists_source_of_loadLines h
  have hlen := (List.sublist_flatten_of_mem hmem).length_le
  rw [length_flatten_sources] at hlen
  have h1 := (Layer.texts_ofSource_sublist kind (splitLines source)).length_le
  have h2 : (splitLines source).flatten.length ≤ (source.filter (· != '\r')).length :=
    (flatten_splitOn_sublist '\n' _).length_le
  have h3 := List.length_filter_le (· != '\r') source
  omega

/-- **There are no more templates** with visible lines that differ from each other than the engine
has characters. -/
theorem length_le_sourceSize {engine : Engine} {templates : List (List Text)}
    (hnodup : templates.Nodup)
    (h : ∀ lines ∈ templates, lines ≠ splitLines [] ∧
      ∃ name subdirs, engine.loadLines name subdirs = .ok lines) :
    templates.length ≤ engine.sourceSize := by
  have hcount : ∀ texts : List Text, (texts.filter (· ≠ [])).length ≤ texts.flatten.length := by
    intro texts
    induction texts with
    | nil => simp
    | cons t texts ih =>
      cases t with
      | nil => simpa using ih
      | cons c cs =>
        simp only [ne_eq, decide_not, List.filter_cons, reduceCtorEq, decide_false, Bool.not_false,
          ↓reduceIte, List.length_cons, List.flatten_cons, List.length_append] at ih ⊢
        omega
  have hsub : templates ⊆ (engine.sources.filter (· ≠ [])).map splitLines := by
    intro lines hlines
    obtain ⟨hne, name, subdirs, hload⟩ := h lines hlines
    obtain ⟨source, hmem, rfl⟩ := exists_source_of_loadLines hload
    refine List.mem_map.2 ⟨source, List.mem_filter.2 ⟨hmem, ?_⟩, rfl⟩
    simp only [ne_eq, decide_not, Bool.not_eq_true', decide_eq_false_iff_not]
    rintro rfl
    exact hne rfl
  have hlen := hnodup.length_le_of_subset hsub
  rw [List.length_map] at hlen
  have := hcount engine.sources
  rw [length_flatten_sources] at this
  omega

end Engine

end Stencil
