import Respell.Command.Run
import Respell.Proofs.Command.FileTree
import Respell.Proofs.Proofreader.Structure
import Respell.Proofs.Text.Marks

/-! # Checks and corrections -/

namespace Respell.Command

theorem readArguments_check {arguments : List String} {options result : Options}
    (h : readArguments arguments options = .ok (.work result)) :
    readArguments arguments { options with check := true } =
      .ok (.work { result with check := true }) := by
  fun_induction readArguments arguments options with
  | case1 options =>
      obtain rfl : options = result := by simpa using h
      rfl
  -- help, the version and mistakes leave no options
  | case2 | case3 | case5 | case7 | case9 | case11 | case12 | case16 | case17 => cases h
  | case4 _ _ _ _ htoken ih | case6 _ _ _ _ htoken ih | case8 _ _ _ _ htoken ih
  | case13 _ _ _ htoken ih | case14 _ _ _ htoken ih | case15 _ _ _ htoken ih =>
      simp only [readArguments, htoken]
      exact ih h
  | case10 _ _ _ _ htoken role hrole ih =>
      simp only [readArguments, htoken, hrole]
      exact ih h
  | case18 _ _ _ htoken hinput ih =>
      simp only [readArguments, htoken, hinput]
      exact ih h

theorem readArguments_cons_check {arguments : List String} {options result : Options}
    (h : readArguments arguments options = .ok (.work result)) :
    readArguments ("--check" :: arguments) options = .ok (.work { result with check := true }) := by
  have htoken : Token.of "--check" = .check := by decide
  simp only [readArguments, htoken]
  exact readArguments_check h

/-- What a run hands over: the text that it prints, or the contents of the file that is named for
the output. -/
def Outcome.handed (outcome : Outcome) (output : Option String) : Except FileFault (List UInt8) :=
  match output with
  | none => .ok (Text.encode outcome.output.toList)
  | some path => outcome.files.read path

theorem handed_deliver {session : Session} {output : Option String} {revision : Revision}
    (h : output ≠ none → (deliver session output revision).code = 0) :
    (deliver session output revision).handed output = .ok (Text.encode revision.text.toList) := by
  cases output with
  | none => rfl
  | some path =>
      have hcode := h (Option.some_ne_none path)
      cases hwrite : session.files.write path (Text.encode revision.text.toList) with
      | error fault => simp [deliver, hwrite] at hcode
      | ok files =>
          simp only [deliver, hwrite, Outcome.handed]
          exact FileTree.read_of_write hwrite

theorem reachable_of_loadProofreader {session : Session} {options : Options}
    {proofreader : Proofreader} (h : loadProofreader session options = .ok proofreader) :
    proofreader.Reachable := by
  obtain ⟨settings, -, hmade⟩ := exists_of_bind_eq_ok h
  exact Proofreader.reachable_ofSettings (eq_ok_of_mapError hmade)

/-- A session with a text to correct: the arguments ask for nothing else, the settings make a
proofreader, and the text can be read. -/
structure Corrects (session : Session) (options : Options) (proofreader : Proofreader)
    (text : String) : Prop where
  arguments : readArguments session.arguments {} = .ok (.work options)
  suggest : options.suggest = none
  interactive : options.interactive = false
  settings : loadProofreader session options = .ok proofreader
  input : readInput session options.input = .ok text

section Corrects

variable {session : Session} {options : Options} {proofreader : Proofreader} {text : String}
  (h : Corrects session options proofreader text)

include h

theorem Corrects.reachable : proofreader.Reachable :=
  reachable_of_loadProofreader h.settings

theorem Corrects.run_eq :
    run session =
      if options.check then
        { code := if (proofreader.revise text).1.isChanged then 1 else 0
          output := changeLines (proofreader.revise text).1
          files := session.files }
      else deliver session options.output (proofreader.revise text).1 := by
  simp only [run, h.arguments, work, h.settings, h.suggest, h.interactive, correct, h.input]
  rfl

theorem Corrects.check {checking : List String}
    (hchecking : readArguments checking {} = .ok (.work { options with check := true })) :
    Corrects { session with arguments := checking } { options with check := true } proofreader
      text where
  arguments := hchecking
  suggest := h.suggest
  interactive := h.interactive
  settings := h.settings
  input := h.input

theorem Corrects.run_eq_deliver (hcheck : options.check = false) :
    run session = deliver session options.output (proofreader.revise text).1 := by
  rw [h.run_eq, hcheck, if_neg Bool.false_ne_true]

theorem Corrects.handed_run (hcheck : options.check = false)
    (hcode : options.output ≠ none → (run session).code = 0) :
    (run session).handed options.output =
      .ok (Text.encode (proofreader.revise text).1.text.toList) := by
  rw [h.run_eq_deliver hcheck] at hcode ⊢
  exact handed_deliver hcode

theorem Corrects.code_check {checking : List String}
    (hchecking : readArguments checking {} = .ok (.work { options with check := true })) :
    (run { session with arguments := checking }).code = 1 ↔
      (proofreader.revise text).1.changes ≠ [] := by
  rw [(h.check hchecking).run_eq, if_pos rfl]
  cases hchanges : (proofreader.revise text).1.changes <;> simp [Revision.isChanged, hchanges]

end Corrects

/-- A change is reported exactly if the text is changed. So a check of an input fails exactly if
the same run without the check hands over a text other than the input; if that is to go to a file,
it has to be one that can be written. -/
theorem check_iff_text_changes {proofreader : Proofreader} (reached : proofreader.Reachable)
    (names : ∀ word ∈ proofreader.lexicon.words, isName word.toList = true) (text : String) :
    ((proofreader.revise text).1.text ≠ text ↔ (proofreader.revise text).1.changes ≠ []) ∧
      ∀ (session : Session) (options : Options) (checking : List String),
        Corrects session options proofreader text → options.check = false →
        readArguments checking {} = .ok (.work { options with check := true }) →
        (options.output ≠ none → (run session).code = 0) →
        ((run { session with arguments := checking }).code = 1 ↔
          (run session).handed options.output ≠ .ok (Text.encode text.toList)) := by
  have hchanged : (proofreader.revise text).1.text ≠ text ↔
      (proofreader.revise text).1.changes ≠ [] :=
    not_congr (reached.text_revise_eq_iff names text)
  refine ⟨hchanged, ?_⟩
  intro session options checking h hcheck hchecking hcode
  rw [h.code_check hchecking, ← hchanged, h.handed_run hcheck hcode, Ne, Ne, Except.ok.injEq,
    Text.encode_injective.eq_iff, String.toList_inj]

theorem loadProofreader_eq {session : Session} {options : Options} {settings : Settings}
    (h : loadSettings session options = .ok settings) :
    loadProofreader session options =
      (Proofreader.ofSettings settings session.cacheSize).mapError .settings := by
  rw [loadProofreader, h]
  rfl

theorem ofSettings_standard (environment : Option String) :
    Proofreader.ofSettings {} environment = .ok (Proofreader.standard environment) := by
  have hdraft : ({} : Settings).draft = Lexicon.Draft.standard := by
    simp [Settings.draft, Lexicon.Draft.addWords]
  have hlexicon : ({} : Settings).lexicon = .ok Lexicon.standard := by
    rw [Settings.lexicon, hdraft, Lexicon.build_standard]
    rfl
  rw [Proofreader.ofSettings, hlexicon]
  rfl

def filing : Session where
  arguments := ["-o", "fair.txt", "-"]
  input := Text.encode "likoh (a)".toList

theorem corrects_filing :
    Corrects filing { input := some "-", output := some "fair.txt" } (.standard none)
      "likoh (a)" where
  arguments := rfl
  suggest := rfl
  interactive := rfl
  settings := by
    have hsettings : loadSettings filing { input := some "-", output := some "fair.txt" } =
        .ok {} := rfl
    have hstandard := ofSettings_standard filing.cacheSize
    rw [loadProofreader_eq hsettings, hstandard]
    rfl
  input := by
    have hchars : Text.gapless? (Text.decode filing.input) = some "likoh (a)".toList := by
      decide +kernel
    simp only [readInput, decodeText, hchars, String.ofList_toList]
    rfl

theorem check_iff_text_changes_filing :
    Corrects filing { input := some "-", output := some "fair.txt" } (.standard none)
        "likoh (a)" ∧
      (run filing).code = 0 ∧
      ((run { filing with arguments := "--check" :: filing.arguments }).code = 1 ↔
        (run filing).handed (some "fair.txt") ≠ .ok (Text.encode "likoh (a)".toList)) := by
  have hcode : (run filing).code = 0 := by
    rw [corrects_filing.run_eq]
    rfl
  have hnames : ∀ word ∈ (Proofreader.standard none).lexicon.words, isName word.toList = true := by
    rw [Proofreader.standard, Proofreader.lexicon_withLexicon]
    exact Lexicon.isName_standard
  have hchecking := readArguments_cons_check corrects_filing.arguments
  obtain ⟨-, hcheck⟩ := check_iff_text_changes corrects_filing.reachable hnames "likoh (a)"
  have hiff := hcheck filing _ _ corrects_filing rfl hchecking fun _ => hcode
  exact ⟨corrects_filing, hcode, hiff⟩

end Respell.Command
