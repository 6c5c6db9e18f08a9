import Respell.Proofs.Sound.Settling

/-! # Words that sound like their own form -/

namespace Respell.Sound

/-- A small ASCII letter, a digit or the underscore. -/
def isSmall (c : Char) : Bool := c.isLower || c.isDigit || c == '_'

/-- A measure that falls with each replacement: the letters that are rewritten count twice. -/
def weight (c : Char) : Nat := if c = 'w' ∨ c = 'z' then 2 else 1

theorem weight_foldl {cls : List (String × String)} (known : cls ⊆ clusters) (cs : List Char) :
    ((cls.foldl replaceCluster cs).map weight).sum ≤ (cs.map weight).sum ∧
      ((∃ cluster ∈ cls, cluster.1.toList <:+: cs) →
        ((cls.foldl replaceCluster cs).map weight).sum < (cs.map weight).sum) := by
  have hfalls : ∀ cluster ∈ clusters,
      (cluster.2.toList.map weight).sum < (cluster.1.toList.map weight).sum := by
    decide
  induction cls generalizing cs with
  | nil => simp
  | cons cluster cls ih =>
      obtain ⟨hcluster, hknown⟩ := List.cons_subset.mp known
      obtain ⟨hle, hless⟩ := weight_replaceFrom (clusters_ne_nil cluster hcluster).1 weight
        (hfalls cluster hcluster) cs
      obtain ⟨hle', hless'⟩ := ih hknown (replaceCluster cs cluster)
      rw [List.foldl_cons]
      refine ⟨hle'.trans hle, ?_⟩
      intro hsome
      by_cases hhere : cluster.1.toList <:+: cs
      · exact lt_of_le_of_lt hle' (hless hhere)
      · have hsame : replaceCluster cs cluster = cs := replaceFrom_of_not_infix hhere
        rw [hsame] at hless' ⊢
        apply hless'
        obtain ⟨other, hother, hin⟩ := hsome
        obtain rfl | hother := List.mem_cons.mp hother
        · exact absurd hin hhere
        · exact ⟨other, hother, hin⟩

/-- Nothing is replaced exactly if there is no cluster. -/
theorem after_eq_self_iff (cs : List Char) :
    after 16 cs = cs ↔ ¬ ∃ cluster ∈ clusters, cluster.1.toList <:+: cs := by
  constructor
  · intro hsame hsome
    have hless := (weight_foldl (List.Subset.refl clusters) cs).2 hsome
    change ((after 16 cs).map weight).sum < _ at hless
    rw [hsame] at hless
    exact lt_irrefl _ hless
  · intro hnone
    refine foldl_of_kept fun cluster hcluster => replaceFrom_of_not_infix fun hin => ?_
    exact hnone ⟨cluster, List.mem_of_mem_take hcluster, hin⟩

theorem isSmall_after {cs : List Char} (small : ∀ c ∈ cs, isSmall c = true) (n : Nat) :
    ∀ c ∈ after n cs, isSmall c = true := by
  have hwritten : ∀ cluster ∈ clusters, ∀ c ∈ cluster.2.toList, isSmall c = true := by
    decide
  have hfoldl : ∀ cls ⊆ clusters, ∀ c ∈ cls.foldl replaceCluster cs, isSmall c = true := by
    intro cls
    induction cls generalizing cs with
    | nil => exact fun _ => small
    | cons cluster cls ih =>
        intro hknown
        obtain ⟨hcluster, hknown⟩ := List.cons_subset.mp hknown
        refine ih (fun c hc => ?_) hknown
        rcases mem_replaceFrom (clusters_ne_nil cluster hcluster).1 hc with hnew | hold
        · exact hwritten cluster hcluster c hnew
        · exact small c hold
  exact hfoldl _ (List.take_subset n clusters)

theorem lower_ofList {cs : List Char} (small : ∀ c ∈ cs, isSmall c = true) :
    Text.lower (String.ofList cs) = String.ofList cs := by
  have hall : ∀ n < 128, isSmall (Char.ofNat n) = true →
      Char.ofNat n ≠ 'Σ' ∧ Text.lowerChar (Char.ofNat n) = [Char.ofNat n] := by
    decide
  have hchar : ∀ c, isSmall c = true → c ≠ 'Σ' ∧ Text.lowerChar c = [c] := by
    intro c hc
    have hascii : c.toNat < 128 := by
      have hle : c.val ≤ 122 := by
        rw [isSmall, Bool.or_eq_true, Bool.or_eq_true, beq_iff_eq] at hc
        rcases hc with (hletter | hdigit) | rfl
        · exact of_decide_eq_true (Bool.and_eq_true_iff.mp hletter).2
        · have hnine : c.val ≤ 57 := of_decide_eq_true (Bool.and_eq_true_iff.mp hdigit).2
          exact UInt32.le_trans hnine (by decide)
        · decide
      exact Nat.lt_of_le_of_lt (UInt32.le_iff_toNat_le.mp hle) (by decide)
    rw [← Char.ofNat_toNat c] at hc ⊢
    exact hall c.toNat hascii hc
  have hfrom : ∀ before, Text.lowerFrom before cs = cs := by
    induction cs with
    | nil => exact fun _ => rfl
    | cons c cs ih =>
        intro before
        obtain ⟨hc, hcs⟩ := List.forall_mem_cons.mp small
        obtain ⟨hsigma, hlower⟩ := hchar c hc
        rw [Text.lowerFrom, if_neg hsigma, hlower, ih hcs, List.singleton_append]
  rw [Text.lower, String.toList_ofList, hfrom]

theorem form_ofList {cs : List Char} (small : ∀ c ∈ cs, isSmall c = true) :
    form (String.ofList cs) = String.ofList (after 16 cs) := by
  have hall : clusters.foldl replaceCluster cs = after 16 cs := rfl
  rw [form, String.toList_ofList, hall, lower_ofList (isSmall_after small 16)]

theorem alike_of_replaceCluster {earlier later : List (String × String)}
    {cluster : String × String} (order : clusters = earlier ++ cluster :: later)
    {cs settled : List Char} (kept : ∀ c ∈ earlier, replaceCluster cs c = cs)
    (replaced : replaceCluster cs cluster = settled)
    (rest : ∀ c ∈ clusters, replaceCluster settled c = settled) :
    alike (String.ofList cs) (String.ofList settled) = true := by
  have hlater : ∀ c ∈ later, replaceCluster settled c = settled := by
    intro c hc
    apply rest
    rw [order]
    exact List.mem_append_right _ (List.mem_cons_of_mem _ hc)
  have hfoldl : clusters.foldl replaceCluster cs = settled := by
    rw [order, List.foldl_append, foldl_of_kept kept, List.foldl_cons, replaced,
      foldl_of_kept hlater]
  rw [alike, form, form, String.toList_ofList, String.toList_ofList, hfoldl, foldl_of_kept rest,
    beq_self_eq_true]

/-- The form of a word of small letters is its own form, and the word sounds like it, exactly if the
word has none of the stretches from which a cluster is left. -/
theorem form_form_iff (word : String) (small : ∀ c ∈ word.toList, isSmall c = true) :
    (form (form word) = form word ↔ ∀ p ∈ lasting, ¬ p <:+: word.toList) ∧
      (alike word (form word) = true ↔ ∀ p ∈ lasting, ¬ p <:+: word.toList) := by
  have hform : form word = String.ofList (after 16 word.toList) := by
    rw [← form_ofList small, String.ofList_toList]
  have hsettled : form (form word) = form word ↔ ∀ p ∈ lasting, ¬ p <:+: word.toList := by
    rw [hform, form_ofList (isSmall_after small 16), String.ofList_inj, after_eq_self_iff,
      exists_cluster_iff]
    simp only [not_exists, not_and]
  refine ⟨hsettled, ?_⟩
  rw [alike, beq_iff_eq, eq_comm]
  exact hsettled

theorem alike_form_khaanaa : (∀ c ∈ "khaanaa".toList, isSmall c = true) ∧
    form (form "khaanaa") = form "khaanaa" ∧ alike "khaanaa" (form "khaanaa") = true := by
  have hsmall : ∀ c ∈ "khaanaa".toList, isSmall c = true := by decide
  have hnone : ∀ p ∈ lasting, ¬ p <:+: "khaanaa".toList := by decide
  obtain ⟨hform, halike⟩ := form_form_iff "khaanaa" hsmall
  exact ⟨hsmall, hform.mpr hnone, halike.mpr hnone⟩

/-- Two of three `a`s become one, which stands before the third. -/
theorem not_alike_form_aaa : (∀ c ∈ "aaa".toList, isSmall c = true) ∧
    form (form "aaa") ≠ form "aaa" ∧ alike "aaa" (form "aaa") = false := by
  decide

end Respell.Sound
