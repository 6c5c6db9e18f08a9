import Respell.Proofs.Edit.Joined
import Respell.Proofs.Proofreader.Structure

/-! # Revisions statement by statement -/

namespace Respell.Proofreader

open Text

/-- The edits of a text after a statement are its own, moved by the width of the statement. -/
theorem rewrites_append (proofreader : Proofreader) {first second : String}
    (hend : first.toList.getLast?.any Site.isStatementEnd = true)
    (hclosed : (Quotes.passing {} [] first.toList).closed = true) :
    proofreader.rewrites (first ++ second) =
      proofreader.rewrites first ++
        (proofreader.rewrites second).map (Edit.shift (width first.toList)) := by
  unfold rewrites
  rw [Site.scan_append hend hclosed, List.filterMap_append, List.filterMap_map, List.map_filterMap]
  congr 2
  funext site
  have hplace : proofreader.accepted? (site.shift (width first.toList)) =
      proofreader.accepted? site := accepted?_eq_of_outline rfl
  rw [Function.comp_apply, hplace, Option.map_map]
  rfl

theorem span_of_rewrites {proofreader : Proofreader} {text : String} {edit : Edit}
    (hedit : edit ∈ proofreader.rewrites text) :
    edit.site.span.start < edit.site.span.stop ∧ edit.site.span.stop ≤ width text.toList := by
  obtain ⟨x, call, y, htext, -, hsite⟩ := exists_call_of_rewrites hedit
  have hpos := call.width_chars_pos
  rw [hsite, htext, width_append, width_append]
  simp only [Call.site]
  omega

/-- After a text that ends a statement, and has an even number of quotes of either kind, those right
after a backslash apart, another one has the sites that it has alone. If none of them and of the
joined text is deferred, the revisions of both make up that of the joined text. -/
theorem revise_append {proofreader : Proofreader} (reached : proofreader.Reachable)
    (first second : String) (hend : first.toList.getLast?.any Site.isStatementEnd = true)
    (hdouble : Even (unescaped '\x5c' '\x22' none first.toList))
    (hsingle : Even (unescaped '\x5c' '\x27' none first.toList)) :
    Site.scan (first ++ second) =
        Site.scan first ++ (Site.scan second).map (Site.shift (width first.toList)) ∧
      (proofreader.defers first = false → proofreader.defers second = false →
        proofreader.defers (first ++ second) = false →
        (proofreader.revise (first ++ second)).1.text =
            (proofreader.revise first).1.text ++ (proofreader.revise second).1.text ∧
          (proofreader.revise (first ++ second)).1.changes =
            Edit.firsts
              ((proofreader.revise first).1.changes ++ (proofreader.revise second).1.changes)) := by
  obtain ⟨rules, -, h, -⟩ := reached.follows
  have hclosed := (Quotes.closed_passing_iff first.toList).mpr ⟨hdouble, hsingle⟩
  refine ⟨Site.scan_append hend hclosed, ?_⟩
  intro hfirst hsecond hboth
  rw [h.revise_eq_weave hfirst, h.revise_eq_weave hsecond, h.revise_eq_weave hboth,
    proofreader.rewrites_append hend hclosed, String.toList_append]
  constructor
  · rw [Edit.weave_joined _ _ fun edit hedit => span_of_rewrites hedit, String.ofList_append]
  · have hchanges : (proofreader.rewrites second).map
        (Edit.change ∘ Edit.shift (width first.toList)) =
          (proofreader.rewrites second).map Edit.change := rfl
    rw [List.map_append, List.map_map, hchanges, ← Edit.firstOfEach_eq_firsts,
      Edit.firstOfEach_joined]

def statement : String := "likoh ('\\'');"

theorem revise_append_brief :
    statement.toList.getLast?.any Site.isStatementEnd = true ∧
      Even (unescaped '\x5c' '\x22' none statement.toList) ∧
      Even (unescaped '\x5c' '\x27' none statement.toList) ∧
      (brief.revise (statement ++ " a . puhs (b)")).1.text =
        "likho('\\''); a .push(b)" ∧
      (brief.revise (statement ++ " a . puhs (b)")).1.changes =
        [⟨"likoh", "likho", .function⟩, ⟨"puhs", "push", .method⟩] := by
  have hend : statement.toList.getLast?.any Site.isStatementEnd = true := by decide +kernel
  have hdouble : Even (unescaped '\x5c' '\x22' none statement.toList) := by decide +kernel
  have hsingle : Even (unescaped '\x5c' '\x27' none statement.toList) := by decide +kernel
  obtain ⟨-, hrevised⟩ :=
    revise_append reachable_brief statement " a . puhs (b)" hend hdouble hsingle
  obtain ⟨htext, hchanges⟩ := hrevised (by decide +kernel) (by decide +kernel) (by decide +kernel)
  exact ⟨hend, hdouble, hsingle, htext.trans (by decide +kernel),
    hchanges.trans (by decide +kernel)⟩

end Respell.Proofreader
