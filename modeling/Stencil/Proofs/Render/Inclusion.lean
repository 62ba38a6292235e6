import Stencil.Proofs.Render.Handling

/-!
# What becomes of an included page

An inclusion puts the page of a partial template into the line, and the line is not finished by
that: it goes on to the directives that come after inclusions (`outcome_dispatch_hosts`). Whatever
in the spliced text looks like a tag is a tag then, also if it comes from the data.
`included_stands_iff` says when the page stands as it was rendered: nothing in the spliced line
begins a body, and replacing its links and values changes nothing.
-/

namespace Stencil

/-- The line is a text, one inclusion, and another text, and extends nothing. -/
structure Line.Hosts (before name behind : Text) (line : Line) : Prop where
  not_rendered : line.rendered = false
  not_extends : Directive.inherits.occursIn line.text = false
  cut : ∃ tag, unquote tag.argument = name ∧
    Pattern.cut (Directive.includes.pattern.scan line.text) = (before, [(tag, behind)])

/-- The text stands as it is: it begins no body, and links and values change nothing of it. -/
structure Text.Stands (engine : Engine) (context : Context) (t : Text) : Prop where
  begins_nothing : ({ text := t } : Line).begins? = none
  rewrite_eq : context.interpolate (engine.linkRoutes (engine.linkAssets t)) = t

/-- The directives that have no tag in a text change nothing of it, so that all three may be taken
to act. -/
theorem Line.text_rewrite {engine : Engine} {context : Context} {line : Line}
    (h : line.rendered = false) : (line.rewrite engine context).text =
      context.interpolate (engine.linkRoutes (engine.linkAssets line.text)) := by
  have step : ∀ (d : Directive) (f : Text → Text) (line : Line),
      (d.occursIn line.text = false → f line.text = line.text) →
      (if d.occursIn line.text then line.edit (f line.text) else line).text = f line.text := by
    intro d f line hf
    cases ho : d.occursIn line.text with
    | true => rfl
    | false => exact (hf ho).symm
  unfold Line.rewrite
  rw [if_neg (by simp [h])]
  simp only
  rw [step .interpolation context.interpolate _
      (Pattern.replace_of_not_occursIn (Pattern.anchored_directive .interpolation)),
    step .route engine.linkRoutes _
      (Pattern.replace_of_not_occursIn (Pattern.anchored_directive .route)),
    step .asset engine.linkAssets _
      (Pattern.replace_of_not_occursIn (Pattern.anchored_directive .asset))]

namespace Render

variable {engine : Engine} {context : Context} {walk : Walker} {chain : Chain}

/-- **A line with an inclusion** goes on with the page in the place of the tag: it begins a capture,
or its links and values are replaced. -/
theorem outcome_dispatch_hosts {before name behind : Text} {line : Line} {session : Session}
    (h : line.Hosts before name behind) (hc : session.capture = none) :
    outcome (dispatch engine context walk chain Directive.order line) session =
      (outcome (included engine walk chain name) session).map fun p =>
        let spliced := line.edit (before ++ p.1 ++ behind)
        match spliced.begins? with
        | some construct => (spliced.blank, p.2.capturing { construct })
        | none => (spliced.rewrite engine context, p.2) := by
  obtain ⟨tag, rfl, hcut⟩ := h.cut
  have hocc : Directive.includes.occursIn line.text = true := Pattern.occursIn_of_cut hcut
  unfold Directive.order
  rw [outcome_dispatch_skip _ h.not_extends, outcome_dispatch_cons _ h.not_rendered hc,
    if_pos hocc, apply, includeLine, hcut]
  simp only [splice, pure_bind]
  rw [outcome_bind, outcome_bind]
  cases hin : outcome (included engine walk chain (unquote tag.argument)) session with
  | error e => rfl
  | ok p =>
    have hr : (line.edit (before ++ p.1 ++ behind)).rendered = false := h.not_rendered
    simp only [Except.bind, Except.map, outcome_pure, List.append_nil]
    rw [← List.append_assoc]
    exact outcome_dispatch_bodies hr (capture_of_included hc hin)

/-- **An included page stands as it was rendered** if and only if the line stands as it is with the
page in it. Nothing keeps the page from being read again as a template. -/
theorem included_stands_iff {before name behind : Text} {line : Line} {session : Session}
    (h : line.Hosts before name behind) (hc : session.capture = none) :
    (∀ e, outcome (included engine walk chain name) session = .error e →
      outcome (dispatch engine context walk chain Directive.order line) session = .error e) ∧
    ∀ page after, outcome (included engine walk chain name) session = .ok (page, after) →
      ∃ line' after',
        outcome (dispatch engine context walk chain Directive.order line) session =
          .ok (line', after') ∧
        (line'.text = before ++ page ++ behind ∧ after'.capture = none ↔
          Text.Stands engine context (before ++ page ++ behind)) := by
  rw [outcome_dispatch_hosts h hc]
  refine ⟨fun e he => by rw [he]; rfl, fun page after hin => ?_⟩
  have hidle := capture_of_included hc hin
  rw [hin]
  simp only [Except.map]
  have hbegins : (line.edit (before ++ page ++ behind)).begins? =
      ({ text := before ++ page ++ behind } : Line).begins? := rfl
  cases hb : (line.edit (before ++ page ++ behind)).begins? with
  | some construct =>
    refine ⟨_, _, rfl, ?_⟩
    rw [hbegins] at hb
    constructor
    · rintro ⟨-, hcapture⟩
      cases hcapture
    · rintro ⟨hnone, -⟩
      rw [hb] at hnone
      cases hnone
  | none =>
    refine ⟨_, _, rfl, ?_⟩
    have htext : ((line.edit (before ++ page ++ behind)).rewrite engine context).text = _ :=
      Line.text_rewrite h.not_rendered
    rw [hbegins] at hb
    constructor
    · rintro ⟨hline, -⟩
      exact ⟨hb, htext.symm.trans hline⟩
    · rintro ⟨-, hrewrite⟩
      exact ⟨htext.trans hrewrite, hidle⟩

/-! ## A value that is read as a template -/

/-- An engine with a partial template that shows a value. -/
def partials : Engine := { templates := [("includes/i".toList, "{{ v }}".toList)] }

/-- A value that looks like a tag, and the value that this tag would show. -/
def secrets : Context := Context.ofList
  [("v".toList, .str "{{ secret }}".toList), ("secret".toList, .str "s3cr3t".toList)]

/-- The line that includes the partial template. -/
def host : Line := { text := "<\x7b% include \"i\" %\x7d>".toList }

theorem included_not_stands :
    host.Hosts "<".toList "i".toList ">".toList ∧
    ∃ after line' after',
      outcome (included partials (Render.walk partials secrets 2) [] "i".toList) {} =
        .ok ("{{ secret }}".toList, after) ∧
      outcome (dispatch partials secrets (Render.walk partials secrets 2) [] Directive.order host) {} =
        .ok (line', after') ∧
      ¬ (line'.text = "<{{ secret }}>".toList ∧ after'.capture = none) := by
  have hhost : host.Hosts "<".toList "i".toList ">".toList :=
    ⟨rfl, by decide +kernel, ⟨"\x7b% include \"i\" %\x7d".toList, "\"i\"".toList⟩, by decide +kernel,
      by decide +kernel⟩
  have hpage : (outcome (included partials (Render.walk partials secrets 2) [] "i".toList) {}).map
      Prod.fst = .ok "{{ secret }}".toList := by
    decide +kernel
  cases hin : outcome (included partials (Render.walk partials secrets 2) [] "i".toList) {} with
  | error e => rw [hin] at hpage; cases hpage
  | ok p =>
    obtain ⟨page, after⟩ := p
    rw [hin] at hpage
    obtain rfl : page = "{{ secret }}".toList := Except.ok.inj hpage
    obtain ⟨line', after', hline, hiff⟩ :=
      (included_stands_iff hhost rfl).2 _ _ hin
    refine ⟨hhost, after, line', after', rfl, hline, fun hstands => ?_⟩
    have hrewrite := (hiff.1 hstands).rewrite_eq
    revert hrewrite
    decide +kernel

/-- The page shows the other value. -/
example : (partials.addTemplate mainName host.text).render mainName secrets =
    .ok "<s3cr3t>".toList := by
  decide +kernel

end Render

end Stencil
