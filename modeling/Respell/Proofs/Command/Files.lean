import Respell.Proofs.Command.Arguments
import Respell.Proofs.Command.Check

namespace Respell.Command

variable {session : Session}

/-- A run changes no file and is of another kind or fails. -/
def LeavesFiles (session : Session) : Prop :=
  (run session).files = session.files ∧
    ¬(isPlain session.arguments = true ∧ (run session).code = 0)

theorem leavesFiles_of_item {token : Token} (hfiles : (run session).files = session.files)
    (hsaid : ∃ item ∈ items session.arguments, item.1 = token)
    (htoken : token ∈ [Token.help, .version, .suggest, .interactive, .check]) :
    LeavesFiles session := by
  refine ⟨hfiles, ?_⟩
  rintro ⟨hplain, -⟩
  obtain ⟨item, hitem, rfl⟩ := hsaid
  have hnone := List.all_eq_true.mp hplain item hitem
  exact of_decide_eq_true hnone htoken

theorem corrects_or_leavesFiles {options : Options}
    (hread : readArguments session.arguments {} = .ok (.work options)) :
    (∃ proofreader text, Corrects session options proofreader text ∧ options.check = false) ∨
      LeavesFiles session := by
  have hrun : run session = work session options := by simp only [run, hread]
  have hplain : options.isPlain = isPlain session.arguments := isPlain_of_readArguments hread
  unfold LeavesFiles
  rw [← hplain]
  rcases hload : loadProofreader session options with failure | proofreader
  · right
    simp [hrun, work, hload]
  rcases hsuggest : options.suggest with _ | word
  swap
  · right
    simp [hrun, work, hload, hsuggest, Options.isPlain]
  cases hinteractive : options.interactive with
  | true =>
      right
      refine ⟨?_, by simp [Options.isPlain, hinteractive]⟩
      simp only [hrun, work, hload, hsuggest, hinteractive, if_true, interact]
      split <;> rfl
  | false =>
      rcases hinput : readInput session options.input with failure | text
      · right
        simp [hrun, work, hload, hsuggest, hinteractive, correct, hinput]
      have h : Corrects session options proofreader text :=
        ⟨hread, hsuggest, hinteractive, hload, hinput⟩
      cases hcheck : options.check with
      | true =>
          right
          rw [h.run_eq, if_pos hcheck]
          exact ⟨rfl, by simp [Options.isPlain, hcheck]⟩
      | false =>
          left
          exact ⟨proofreader, text, h, rfl⟩

/-- A run corrects a text, or it leaves all files as they are. -/
theorem run_corrects_or_leavesFiles (session : Session) :
    (∃ options proofreader text, Corrects session options proofreader text ∧
      options.check = false) ∨ LeavesFiles session := by
  rcases hread : readArguments session.arguments {} with mistake | request
  · right
    simp [LeavesFiles, run, hread]
  have hfits := fits_of_readArguments hread
  cases request with
  | help => exact Or.inr (leavesFiles_of_item (by simp only [run, hread]) hfits (by decide))
  | version => exact Or.inr (leavesFiles_of_item (by simp only [run, hread]) hfits (by decide))
  | work options =>
      rcases corrects_or_leavesFiles hread with hcorrects | hleaves
      · exact Or.inl ⟨options, hcorrects⟩
      · exact Or.inr hleaves

theorem deliver_some_cases (session : Session) (name : String) (revision : Revision) :
    ((deliver session (some name) revision).code = 0 ∧
      session.files.write name (Text.encode revision.text.toList) =
        .ok (deliver session (some name) revision).files) ∨
    ((deliver session (some name) revision).code ≠ 0 ∧
      (deliver session (some name) revision).files = session.files) := by
  rcases hwrite : session.files.write name (Text.encode revision.text.toList) with fault | files
  · right
    simp [deliver, hwrite]
  · left
    simp [deliver, hwrite]

/-- A run that only corrects and succeeds leaves the corrected text in the file that is named last
for the output, if there is one, and changes nothing at other paths. The text that is corrected is
the one from before the run, also if it is in that same file. Any other run, and any that fails,
leaves all files as they are. -/
theorem run_files (session : Session) :
    (isPlain session.arguments = true → (run session).code = 0 →
      ∃ options proofreader text, Corrects session options proofreader text ∧
        (lastOutput? session.arguments = none → (run session).files = session.files) ∧
        ∀ name, lastOutput? session.arguments = some name →
          let bytes := Text.encode (proofreader.revise text).1.text.toList
          (run session).files.read name = .ok bytes ∧
          ∃ path, session.files.target name = .ok path ∧
            (run session).files.kind? path = some (.file bytes) ∧
            ∀ other, other ≠ path →
              (run session).files.kind? other = session.files.kind? other) ∧
    (isPlain session.arguments = false ∨ (run session).code ≠ 0 →
      (run session).files = session.files) := by
  rcases run_corrects_or_leavesFiles session with ⟨options, proofreader, text, h, hcheck⟩ | hleaves
  · have houtput := output_of_readArguments h.arguments
    have hplain : isPlain session.arguments = true := by
      rw [← isPlain_of_readArguments h.arguments, Options.isPlain, h.suggest, h.interactive, hcheck]
      rfl
    have hrun := h.run_eq_deliver hcheck
    rw [houtput] at hrun
    rw [hplain, hrun]
    refine ⟨?_, ?_⟩
    · intro _ hcode
      refine ⟨options, proofreader, text, h, ?_, ?_⟩
      · intro hnone
        rw [hnone]
        rfl
      · intro name hname
        rw [hname] at hcode ⊢
        rcases deliver_some_cases session name (proofreader.revise text).1 with
          ⟨-, hwrite⟩ | ⟨hfails, -⟩
        · exact ⟨FileTree.read_of_write hwrite, FileTree.write_ok hwrite⟩
        · exact absurd hcode hfails
    · intro hother
      cases hname : lastOutput? session.arguments with
      | none => rfl
      | some name =>
          rw [hname] at hother
          rcases deliver_some_cases session name (proofreader.revise text).1 with
            ⟨hcode, -⟩ | ⟨-, hfiles⟩
          · simp [hcode] at hother
          · exact hfiles
  · obtain ⟨hfiles, hother⟩ := hleaves
    refine ⟨?_, fun _ => hfiles⟩
    intro hplain hcode
    exact absurd ⟨hplain, hcode⟩ hother

theorem Corrects.unique {options options' : Options} {proofreader proofreader' : Proofreader}
    {text text' : String} (h : Corrects session options proofreader text)
    (h' : Corrects session options' proofreader' text') :
    proofreader = proofreader' ∧ text = text' := by
  have hoptions : options = options' := by
    have hread := h.arguments.symm.trans h'.arguments
    simpa using hread
  subst hoptions
  exact ⟨Except.ok.inj (h.settings.symm.trans h'.settings),
    Except.ok.inj (h.input.symm.trans h'.input)⟩

/-- A session that corrects a file in place, though another one is named for the output before. -/
def inPlace : Session where
  arguments := ["-o", "fair.txt", "draft.txt", "--output", "./draft.txt"]
  files :=
    { files := [(["home", "draft.txt"], Text.encode "likoh (a)".toList)], working := ["home"] }

theorem corrects_inPlace :
    Corrects inPlace { input := some "draft.txt", output := some "./draft.txt" } (.standard none)
      "likoh (a)" where
  arguments := rfl
  suggest := rfl
  interactive := rfl
  settings := by
    have hsettings : loadSettings inPlace
        { input := some "draft.txt", output := some "./draft.txt" } = .ok {} := rfl
    have hstandard := ofSettings_standard inPlace.cacheSize
    rw [loadProofreader_eq hsettings, hstandard]
    rfl
  input := rfl

theorem run_files_inPlace :
    isPlain inPlace.arguments = true ∧ (run inPlace).code = 0 ∧
      (run inPlace).files.read "./draft.txt" =
        .ok (Text.encode ((Proofreader.standard none).revise "likoh (a)").1.text.toList) := by
  have hcode : (run inPlace).code = 0 := by
    rw [corrects_inPlace.run_eq_deliver rfl]
    rfl
  obtain ⟨options, proofreader, text, h, -, hfile⟩ := (run_files inPlace).1 rfl hcode
  obtain ⟨rfl, rfl⟩ := h.unique corrects_inPlace
  exact ⟨rfl, hcode, (hfile "./draft.txt" rfl).1⟩

end Respell.Command
