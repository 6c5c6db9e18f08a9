import Respell.Proofs.Proofreader.Structure
import Respell.Proofs.Site.Literal

/-! # Revisions leave string literals alone -/

namespace Respell.Proofreader

open Text

/-- The edits that a revision makes in a text, from the first to the last. -/
def made (proofreader : Proofreader) (text : String) : List Edit :=
  if proofreader.defers text then []
  else ((Edit.chosen proofreader.lexicon text.toList
    (proofreader.editsFor (Site.scan text)).1).map Prod.fst).reverse

section Made

variable {proofreader : Proofreader} {rules : Rules} (h : proofreader.Follows rules)
  {text : String}

include h

theorem Follows.made_eq_rewrites (hdefers : proofreader.defers text = false) :
    proofreader.made text = proofreader.rewrites text := by
  have hchosen : (Edit.chosen rules.lexicon text.toList (rules.edits (Site.scan text))).map
      Prod.fst = ((rules.edits (Site.scan text)).filter fun edit => edit.site.isCall).reverse :=
    Edit.map_fst_chosen (rules.map_site_edits_sublist (Site.scan text))
      fun edit hedit => Rules.exempts_of_mem_edits hedit
  rw [made, hdefers, if_neg Bool.false_ne_true, h.lexicon, (h.editsFor (Site.scan text)).1,
    hchosen, List.reverse_reverse, h.rewrites]

theorem Follows.text_revise_eq_weave (text : String) :
    (proofreader.revise text).1.text.toList =
      Edit.weave (proofreader.made text) 0 text.toList := by
  cases hdefers : proofreader.defers text with
  | true =>
      have hnone : proofreader.made text = [] := by rw [made, hdefers, if_pos rfl]
      rw [revise_of_defers hdefers, hnone, Edit.weave_past (by simp)]
  | false =>
      rw [h.revise_eq_weave hdefers, h.made_eq_rewrites hdefers, String.toList_ofList]

theorem Follows.exists_call_of_made {edit : Edit} (hedit : edit ∈ proofreader.made text) :
    ∃ (x : List Char) (call : Call) (y : List Char), text.toList = x ++ call.chars ++ y ∧
      (Quotes.passing {} [] x).closed = true ∧
      edit.site.span = ⟨width x, width x + width call.chars⟩ := by
  cases hdefers : proofreader.defers text with
  | true =>
      rw [made, hdefers, if_pos rfl] at hedit
      simp at hedit
  | false =>
      rw [h.made_eq_rewrites hdefers] at hedit
      obtain ⟨x, call, y, htext, hclosed, hsite⟩ := exists_call_of_rewrites hedit
      refine ⟨x, call, y, htext, hclosed, ?_⟩
      rw [hsite]
      rfl

/-- A character in the span of an edit is no quote, and no literal is open before it. -/
theorem Follows.closed_of_made {edit : Edit} (hedit : edit ∈ proofreader.made text)
    {u v : List Char} {c : Char} (htext : text.toList = u ++ c :: v)
    (hstart : edit.site.span.start ≤ width u) (hstop : width u < edit.site.span.stop) :
    (Quotes.passing {} [] u).closed = true ∧ Quotes.isPlain c = true := by
  obtain ⟨x, call, y, hcall, hclosed, hspan⟩ := h.exists_call_of_made hedit
  rw [hspan] at hstart hstop
  exact call.closed_of_inside (hcall.symm.trans htext) hclosed hstart hstop

theorem Follows.exists_char_at_made {edit : Edit} (hedit : edit ∈ proofreader.made text)
    {p : Nat} (hstart : edit.site.span.start ≤ p) (hstop : p < edit.site.span.stop) :
    ∃ u c v, text.toList = u ++ c :: v ∧ width u ≤ p ∧ p < width u + c.utf8Size ∧
      (Quotes.passing {} [] u).closed = true ∧ Quotes.isPlain c = true := by
  obtain ⟨x, call, y, hcall, -, hspan⟩ := h.exists_call_of_made hedit
  have hx : width x ≤ p := by simpa only [hspan] using hstart
  have hlt : p < width text.toList := by
    have hlast : p < width x + width call.chars := by simpa only [hspan] using hstop
    rw [hcall, width_append, width_append]
    omega
  obtain ⟨u, c, v, htext, hu, hc⟩ := exists_char_at hlt
  -- a span starts between characters, so not inside of the one at `p`
  have hfirst : edit.site.span.start ≤ width u := by
    rw [List.append_assoc] at hcall
    rw [hspan]
    rcases width_le_or_le_width (htext.symm.trans hcall) with hle | hle
    · exact hle
    · omega
  exact ⟨u, c, v, htext, hu, hc, h.closed_of_made hedit htext hfirst (by omega)⟩

theorem Follows.text_revise_of_guarded {u v : List Char} {c : Char}
    (htext : text.toList = u ++ c :: v)
    (hguarded : ¬((Quotes.passing {} [] u).closed = true ∧ Quotes.isPlain c = true)) :
    (proofreader.revise text).1.text.toList =
      Edit.weave (proofreader.made text) 0 u ++
        c :: Edit.weave (proofreader.made text) (width u + c.utf8Size) v := by
  have hcopied : Edit.written (proofreader.made text) (width u) c = [c] := by
    apply Edit.written_outside
    intro edit hedit
    obtain ⟨x, call, y, -, -, hspan⟩ := h.exists_call_of_made hedit
    have hpos := call.width_chars_pos
    have hlt : edit.site.span.start < edit.site.span.stop := by
      simp only [hspan]
      omega
    refine ⟨hlt, ?_⟩
    rcases Nat.lt_or_ge (width u) edit.site.span.start with hbefore | hstart
    · exact Or.inl hbefore
    · rcases Nat.lt_or_ge (width u) edit.site.span.stop with hstop | hafter
      · exact absurd (h.closed_of_made hedit htext hstart hstop) hguarded
      · exact Or.inr hafter
  rw [h.text_revise_eq_weave, htext, Edit.weave_append, Nat.zero_add, Edit.weave, hcopied,
    List.singleton_append]

end Made

/-- Each byte in the span of an edit is no quote and has an even number of quotes of either kind
before it, those right after a backslash apart. A byte that is a quote, or that has an odd number of
quotes before it, belongs to a character that is copied to its place in the revised text. -/
theorem revise_literals {proofreader : Proofreader} (reached : proofreader.Reachable)
    (text : String) :
    let bytes := encode text.toList
    let edits := proofreader.made text
    (∀ edit ∈ edits, ∀ p, edit.site.span.start ≤ p → p < edit.site.span.stop →
      Even (unescaped 0x5C 0x22 none (bytes.take p)) ∧
      Even (unescaped 0x5C 0x27 none (bytes.take p)) ∧
      ∃ b, bytes[p]? = some b ∧ b ≠ 0x22 ∧ b ≠ 0x27) ∧
    ∀ p b, bytes[p]? = some b →
      (b = 0x22 ∨ b = 0x27 ∨ ¬Even (unescaped 0x5C 0x22 none (bytes.take p)) ∨
        ¬Even (unescaped 0x5C 0x27 none (bytes.take p))) →
      ∃ x c y, text.toList = x ++ c :: y ∧ width x ≤ p ∧ p < width x + c.utf8Size ∧
        (proofreader.revise text).1.text.toList =
          Edit.weave edits 0 x ++ c :: Edit.weave edits (width x + c.utf8Size) y := by
  intro bytes edits
  obtain ⟨rules, -, h, -⟩ := reached.follows
  refine ⟨?_, ?_⟩
  · intro edit hedit p hstart hstop
    obtain ⟨u, c, v, htext, hu, hc, hclosed, hplain⟩ := h.exists_char_at_made hedit hstart hstop
    have hbytes : bytes = encode (u ++ c :: v) := congrArg encode htext
    have hlt : p < bytes.length := by
      rw [hbytes, length_encode, width_append, width_cons]
      omega
    have hb := List.getElem?_eq_getElem hlt
    generalize bytes[p] = b at hb
    rw [hbytes] at hb ⊢
    obtain ⟨hdouble, hsingle⟩ := (Quotes.closed_passing_iff_bytes hu hc).mp hclosed
    exact ⟨hdouble, hsingle, b, hb, Quotes.ne_quote_of_isPlain hu hc hplain hb⟩
  · intro p b hb hguarded
    have hlt : p < width text.toList := by
      rw [← length_encode]
      exact (List.getElem?_eq_some_iff.mp hb).1
    obtain ⟨u, c, v, htext, hu, hc⟩ := exists_char_at hlt
    have hbytes : bytes = encode (u ++ c :: v) := congrArg encode htext
    rw [hbytes] at hb hguarded
    refine ⟨u, c, v, htext, hu, hc, h.text_revise_of_guarded htext ?_⟩
    rintro ⟨hclosed, hplain⟩
    obtain ⟨hdouble, hsingle⟩ := (Quotes.closed_passing_iff_bytes hu hc).mp hclosed
    obtain ⟨hne, hne'⟩ := Quotes.ne_quote_of_isPlain hu hc hplain hb
    rcases hguarded with heq | heq | hodd | hodd
    · exact hne heq
    · exact hne' heq
    · exact hodd hdouble
    · exact hodd hsingle

def quotedCall : String := "'\\'' . puhs (\"likoh (\")"

theorem revise_literals_brief :
    (brief.made quotedCall).map (fun edit => edit.site.span) = [⟨5, 13⟩] ∧
      Even (unescaped 0x5C 0x27 none ((encode quotedCall.toList).take 5)) ∧
      ∃ x c y, quotedCall.toList = x ++ c :: y ∧ width x ≤ 14 ∧ 14 < width x + c.utf8Size ∧
        (brief.revise quotedCall).1.text.toList =
          Edit.weave (brief.made quotedCall) 0 x ++
            c :: Edit.weave (brief.made quotedCall) (width x + c.utf8Size) y := by
  have hspans : (brief.made quotedCall).map (fun edit => edit.site.span) = [⟨5, 13⟩] := by
    decide +kernel
  obtain ⟨hinside, hguarded⟩ := revise_literals reachable_brief quotedCall
  obtain ⟨edit, hedit, hspan⟩ := List.mem_map.mp (hspans ▸ List.mem_singleton.mpr rfl)
  refine ⟨hspans, (hinside edit hedit 5 (by simp [hspan]) (by simp [hspan])).2.1, ?_⟩
  exact hguarded 14 108 (by decide +kernel) (Or.inr (Or.inr (Or.inl (by decide +kernel))))

end Respell.Proofreader
