import Respell.Command.FileTree
import Respell.Proofs.Fallible

/-! # Reading back what was written -/

namespace Respell.Command.FileTree

variable {tree : FileTree} {path : Path}

private theorem lookup_replaced {files : List (Path × List UInt8)} (bytes : List UInt8)
    (hany : (files.any fun file => file.1 = path) = true) :
    (files.map fun file => if file.1 = path then (path, bytes) else file).lookup path =
      some bytes := by
  induction files with
  | nil => simp at hany
  | cons file files ih =>
      rw [List.map_cons]
      by_cases hfile : file.1 = path
      · rw [if_pos hfile, List.lookup_cons_self]
      · have hrest : (files.any fun file => file.1 = path) = true := by simpa [hfile] using hany
        rw [if_neg hfile, List.lookup_cons, beq_eq_false_iff_ne.mpr (Ne.symm hfile)]
        exact ih hrest

private theorem lookup_kept {other : Path} (files : List (Path × List UInt8)) (bytes : List UInt8)
    (hother : other ≠ path) :
    (files.map fun file => if file.1 = path then (path, bytes) else file).lookup other =
      files.lookup other := by
  induction files with
  | nil => rfl
  | cons file files ih =>
      rw [List.map_cons]
      by_cases hfile : file.1 = path
      · rw [if_pos hfile, List.lookup_cons, List.lookup_cons, hfile, ih,
          beq_eq_false_iff_ne.mpr hother]
      · rw [if_neg hfile, List.lookup_cons, List.lookup_cons, ih]

theorem kind?_put_self (tree : FileTree) (path : Path) (bytes : List UInt8) :
    (tree.put path bytes).kind? path = some (.file bytes) := by
  have hlookup : (tree.put path bytes).files.lookup path = some bytes := by
    unfold put
    by_cases hany : (tree.files.any fun file => file.1 = path) = true
    · rw [if_pos hany]
      exact lookup_replaced bytes hany
    · have hnone : tree.files.lookup path = none := by
        rw [List.lookup_eq_none_iff]
        intro file hfile
        have hne := fun hpath => hany (List.any_eq_true.mpr ⟨file, hfile, decide_eq_true hpath⟩)
        exact bne_iff_ne.mpr (Ne.symm hne)
      rw [if_neg hany, List.lookup_append, hnone, Option.none_or, List.lookup_cons_self]
  rw [kind?, hlookup]

theorem lookup_put_other {other : Path} (tree : FileTree) (bytes : List UInt8)
    (hother : other ≠ path) :
    (tree.put path bytes).files.lookup other = tree.files.lookup other := by
  unfold put
  split
  · exact lookup_kept tree.files bytes hother
  · rw [List.lookup_append, List.lookup_cons, beq_eq_false_iff_ne.mpr hother]
    exact Option.or_none

theorem paths_subset_put (tree : FileTree) (path : Path) (bytes : List UInt8) :
    tree.paths ⊆ (tree.put path bytes).paths := by
  unfold paths put
  split
  · have hsame : (tree.files.map fun file => if file.1 = path then (path, bytes) else file).map
        (fun file => file.1.dropLast) = tree.files.map fun file => file.1.dropLast := by
      rw [List.map_map]
      apply List.map_congr_left
      intro file _
      by_cases hfile : file.1 = path
      · rw [Function.comp_apply, if_pos hfile, hfile]
      · rw [Function.comp_apply, if_neg hfile]
    rw [hsame]
    exact fun other hother => hother
  · rw [List.map_append, ← List.append_assoc]
    exact List.subset_append_left _ _

theorem kind?_eq_directory_iff {place : Path} :
    tree.kind? place = some .directory ↔
      tree.files.lookup place = none ∧ ∃ way ∈ tree.paths, place <+: way := by
  unfold kind?
  cases hlookup : tree.files.lookup place with
  | some bytes => simp
  | none => simp

theorem kind?_put_of_directory {other : Path} (bytes : List UInt8)
    (hother : tree.kind? other = some .directory)
    (hpath : tree.kind? path ≠ some .directory) :
    (tree.put path bytes).kind? other = some .directory := by
  have hne : other ≠ path := by
    rintro rfl
    exact hpath hother
  obtain ⟨hfree, way, hway, hprefix⟩ := kind?_eq_directory_iff.mp hother
  rw [kind?_eq_directory_iff, lookup_put_other tree bytes hne]
  exact ⟨hfree, way, paths_subset_put tree path bytes hway, hprefix⟩

section Walk

variable (bytes : List UInt8) (hpath : tree.kind? path ≠ some .directory)

include hpath

theorem step_put {place next : Path} {name : String} (h : tree.step place name = .ok next) :
    (tree.put path bytes).step place name = .ok next := by
  unfold step at h ⊢
  cases hkind : tree.kind? place with
  | none => simp [hkind] at h
  | some kind =>
      cases kind with
      | file contents => simp [hkind] at h
      | directory =>
          rw [hkind] at h
          rw [kind?_put_of_directory bytes hkind hpath]
          exact h

theorem foldlM_step_put {names : List String} {place last : Path}
    (h : names.foldlM tree.step place = .ok last) :
    names.foldlM (tree.put path bytes).step place = .ok last := by
  induction names generalizing place with
  | nil => exact h
  | cons name names ih =>
      rw [List.foldlM_cons] at h ⊢
      obtain ⟨next, hstep, hrest⟩ := exists_of_bind_eq_ok h
      rw [step_put bytes hpath hstep]
      exact ih hrest

end Walk

theorem foldlM_names (tree : FileTree) (name : String) :
    (names name).foldlM tree.step (tree.origin name) =
      tree.parent name >>= fun place => tree.step place ((names name).getLast?.getD "") := by
  have hne : names name ≠ [] := by simp [names, List.splitOn_ne_nil]
  have hlast : (names name).getLast?.getD "" = (names name).getLast hne := by
    rw [List.getLast?_eq_some_getLast hne, Option.getD_some]
  conv => lhs; rw [← List.dropLast_concat_getLast hne]
  rw [List.foldlM_append, hlast]
  simp only [List.foldlM_cons, List.foldlM_nil, bind_pure, parent]

theorem target_ok {name : String} (h : tree.target name = .ok path) :
    name ≠ "" ∧ (names name).foldlM tree.step (tree.origin name) = .ok path ∧
      tree.kind? path ≠ some .directory := by
  unfold target at h
  split at h
  · obtain ⟨_, hthrow, -⟩ := exists_of_bind_eq_ok h
    cases hthrow
  rename_i hname
  obtain ⟨start, hparent, h⟩ := exists_of_bind_eq_ok h
  obtain ⟨last, hstep, h⟩ := exists_of_bind_eq_ok h
  split at h
  · obtain ⟨_, hthrow, -⟩ := exists_of_bind_eq_ok h
    cases hthrow
  rename_i hfile
  obtain ⟨hplain, hkind⟩ := not_or.mp hfile
  obtain rfl : last = path := Except.ok.inj h
  rw [Classical.not_not.mp hplain] at hparent hstep
  refine ⟨hname, ?_, hkind⟩
  rw [foldlM_names, hparent]
  exact hstep

/-- What was written under a path name is read under it. -/
theorem read_of_write {name : String} {bytes : List UInt8} {tree' : FileTree}
    (h : tree.write name bytes = .ok tree') : tree'.read name = .ok bytes := by
  obtain ⟨path, htarget, h⟩ := exists_of_bind_eq_ok h
  obtain rfl : tree.put path bytes = tree' := Except.ok.inj h
  obtain ⟨hname, hwalk, hkind⟩ := target_ok htarget
  have horigin : (tree.put path bytes).origin name = tree.origin name := by
    unfold put
    split <;> rfl
  have hwritten : (names name).foldlM (tree.put path bytes).step
      ((tree.put path bytes).origin name) = .ok path := by
    rw [horigin]
    exact foldlM_step_put bytes hkind hwalk
  unfold read
  rw [if_neg hname, hwritten]
  simp only [bind, Except.bind, pure, Except.pure, kind?_put_self]

theorem mem_paths_put {place : Path} {bytes : List UInt8}
    (h : place ∈ (tree.put path bytes).paths) : place ∈ tree.paths ∨ place = path.dropLast := by
  unfold put at h
  split at h
  · left
    rcases List.mem_append.mp h with hplace | hplace
    · exact List.mem_append_left _ hplace
    · obtain ⟨file, hfile, rfl⟩ := List.mem_map.mp hplace
      obtain ⟨old, hold, rfl⟩ := List.mem_map.mp hfile
      apply List.mem_append_right
      refine List.mem_map.mpr ⟨old, hold, ?_⟩
      by_cases hpath : old.1 = path
      · rw [if_pos hpath, hpath]
      · rw [if_neg hpath]
  · simp only [paths, List.map_append, List.map_singleton, ← List.append_assoc] at h
    rcases List.mem_append.mp h with hplace | hplace
    · exact Or.inl hplace
    · exact Or.inr (List.mem_singleton.mp hplace)

theorem kind?_put_other {place other : Path} (bytes : List UInt8)
    (hplace : tree.kind? place = some .directory) (hpath : path.dropLast <+: place)
    (hother : other ≠ path) : (tree.put path bytes).kind? other = tree.kind? other := by
  have hany : (tree.put path bytes).paths.any other.isPrefixOf =
      tree.paths.any other.isPrefixOf := by
    rw [Bool.eq_iff_iff, List.any_eq_true, List.any_eq_true]
    constructor
    · rintro ⟨way, hway, hprefix⟩
      rcases mem_paths_put hway with hold | rfl
      · exact ⟨way, hold, hprefix⟩
      · obtain ⟨-, way, hold, hbelow⟩ := kind?_eq_directory_iff.mp hplace
        refine ⟨way, hold, List.isPrefixOf_iff_prefix.mpr ?_⟩
        exact (List.isPrefixOf_iff_prefix.mp hprefix).trans (hpath.trans hbelow)
    · rintro ⟨way, hway, hprefix⟩
      exact ⟨way, paths_subset_put tree path bytes hway, hprefix⟩
  unfold kind?
  rw [lookup_put_other tree bytes hother, hany]

theorem step_ok {place next : Path} {name : String} (h : tree.step place name = .ok next) :
    tree.kind? place = some .directory ∧ next.dropLast <+: place := by
  unfold step at h
  split at h
  · cases h
  · cases h
  · rename_i hplace
    refine ⟨hplace, ?_⟩
    split at h
    · obtain rfl := Except.ok.inj h
      exact List.dropLast_prefix place
    · split at h
      · obtain rfl := Except.ok.inj h
        exact (List.dropLast_prefix _).trans (List.dropLast_prefix place)
      · obtain rfl := Except.ok.inj h
        exact ⟨[], by rw [List.append_nil, List.dropLast_concat]⟩

/-- What is written under a path name is put at its target, and nothing changes elsewhere. -/
theorem write_ok {name : String} {bytes : List UInt8} {tree' : FileTree}
    (h : tree.write name bytes = .ok tree') :
    ∃ path, tree.target name = .ok path ∧ tree'.kind? path = some (.file bytes) ∧
      ∀ other, other ≠ path → tree'.kind? other = tree.kind? other := by
  obtain ⟨path, htarget, h⟩ := exists_of_bind_eq_ok h
  obtain rfl : tree.put path bytes = tree' := Except.ok.inj h
  obtain ⟨-, hwalk, -⟩ := target_ok htarget
  rw [foldlM_names] at hwalk
  obtain ⟨place, -, hstep⟩ := exists_of_bind_eq_ok hwalk
  obtain ⟨hplace, hprefix⟩ := step_ok hstep
  refine ⟨path, htarget, kind?_put_self tree path bytes, ?_⟩
  intro other hother
  exact kind?_put_other bytes hplace hprefix hother

end Respell.Command.FileTree
