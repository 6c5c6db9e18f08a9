import Respell.Proofs.Command.Check
import Respell.Proofs.Text.Decoding

/-! # Dialogues line by line -/

namespace Respell.Command

/-- What is left of a line if one carriage return at its end is taken for part of the line end. -/
def dropReturn (line : List Char) : List Char :=
  if line.getLast? = some '\r' then line.dropLast else line

/-- The lines of a text, divided at its line feeds. What comes after the last line feed is a line
unless there is nothing, and keeps a carriage return at its end. -/
def rows (text : List Char) : List (List Char) :=
  (text.splitOn '\n').dropLast.map dropReturn ++
    (text.splitOn '\n').getLast?.toList.filter fun line => line ≠ []

theorem dropReturn_cons {c : Char} {line : List Char} (h : line ≠ [] ∨ c ≠ '\r') :
    dropReturn (c :: line) = c :: dropReturn line := by
  cases line with
  | nil =>
      have hc : c ≠ '\r' := by simpa using h
      simp [dropReturn, hc]
  | cons d line =>
      simp only [dropReturn, List.getLast?_cons_cons, List.dropLast_cons_cons]
      split <;> rfl

theorem rows_line (line rest : List Char) (hline : '\n' ∉ line) :
    rows (line ++ '\n' :: rest) = dropReturn line :: rows rest := by
  have hne : rest.splitOn '\n' ≠ [] := List.splitOn_ne_nil _ _
  have hsplit : (line ++ '\n' :: rest).splitOn '\n' = line :: rest.splitOn '\n' :=
    List.splitOn_append_cons_self_of_not_mem hline rest
  rw [rows, hsplit, List.dropLast_cons_of_ne_nil hne, List.map_cons, List.cons_append,
    List.getLast?_cons_of_ne_nil hne, rows]

theorem rows_unended (line : List Char) (hline : '\n' ∉ line) :
    rows line = if line = [] then [] else [line] := by
  have hsplit : line.splitOn '\n' = [line] := List.splitOn_eq_singleton hline
  rw [rows, hsplit]
  by_cases hnil : line = [] <;> simp [hnil]

theorem lines_cons {c : Option Char} {cs : List (Option Char)} (hfeed : c ≠ some '\n')
    (hreturn : c = some '\r' → cs.head? ≠ some (some '\n')) :
    lines (c :: cs) = (c :: (lines cs).headD []) :: (lines cs).tail := by
  rw [lines]
  · cases lines cs <;> rfl
  · exact hfeed
  · rintro rest hc rfl
    exact hreturn hc rfl

theorem head?_ne_feed {line : List Char} (hline : '\n' ∉ line) :
    (line.map some).head? ≠ some (some '\n') := by
  intro hhead
  rw [List.head?_map, Option.map_eq_some_iff] at hhead
  obtain ⟨c, hc, hfeed⟩ := hhead
  obtain rfl := Option.some.inj hfeed
  exact hline (List.mem_of_head? hc)

theorem lines_line (line : List Char) (rest : List (Option Char)) (hline : '\n' ∉ line) :
    lines (line.map some ++ some '\n' :: rest) = (dropReturn line).map some :: lines rest := by
  induction line with
  | nil => rfl
  | cons c line ih =>
      simp only [List.mem_cons, not_or] at hline
      by_cases hend : line = [] ∧ c = '\r'
      · obtain ⟨rfl, rfl⟩ := hend
        rfl
      · have hkept : line ≠ [] ∨ c ≠ '\r' := by
          rw [← not_and_or]
          exact hend
        rw [List.map_cons, List.cons_append, lines_cons, ih hline.2, dropReturn_cons hkept]
        · rfl
        · simpa using Ne.symm hline.1
        · intro hreturn
          cases line with
          | nil => exact absurd ⟨rfl, Option.some.inj hreturn⟩ hend
          | cons d line => exact head?_ne_feed hline.2

theorem lines_unended (line : List Char) (hline : '\n' ∉ line) :
    lines (line.map some) = if line = [] then [] else [line.map some] := by
  induction line with
  | nil => rfl
  | cons c line ih =>
      simp only [List.mem_cons, not_or] at hline
      rw [List.map_cons, lines_cons, ih hline.2, if_neg (List.cons_ne_nil c line)]
      · by_cases hnil : line = [] <;> simp [hnil]
      · simpa using Ne.symm hline.1
      · exact fun _ => head?_ne_feed hline.2

theorem lines_map_some (text : List Char) :
    lines (text.map some) = (rows text).map (List.map some) := by
  -- on the length of the text, as the first line is taken off as a whole
  induction hlength : text.length using Nat.strongRecOn generalizing text with
  | ind n ih =>
      by_cases hfeed : '\n' ∈ text
      · obtain ⟨line, rest, rfl, hline⟩ := List.eq_append_cons_of_mem hfeed
        have hshorter : rest.length < n := by
          rw [← hlength, List.length_append, List.length_cons]
          omega
        rw [rows_line line rest hline, List.map_append, List.map_cons,
          lines_line line _ hline, ih _ hshorter rest rfl, List.map_cons]
      · rw [lines_unended text hfeed, rows_unended text hfeed]
        by_cases hnil : text = [] <;> simp [hnil]

theorem rows_append {first : List Char} (hends : first = [] ∨ first.getLast? = some '\n')
    (second : List Char) : rows (first ++ second) = rows first ++ rows second := by
  rcases hends with rfl | hends
  · rfl
  · obtain ⟨front, rfl⟩ := List.getLast?_eq_some_iff.mp hends
    have hne : ∀ rest : List Char, rest.splitOn '\n' ≠ [] := fun rest => List.splitOn_ne_nil _ _
    have hrows : ∀ rest, rows (front ++ '\n' :: rest) =
        (front.splitOn '\n').map dropReturn ++ rows rest := by
      intro rest
      have hsplit : (front ++ '\n' :: rest).splitOn '\n' =
          front.splitOn '\n' ++ rest.splitOn '\n' := List.splitOn_append_cons_self _ _
      have hlast : (front.splitOn '\n' ++ rest.splitOn '\n').getLast? =
          (rest.splitOn '\n').getLast? := by
        rw [List.getLast?_append, List.getLast?_eq_some_getLast (hne rest), Option.some_or]
      rw [rows, hsplit, hlast, List.dropLast_append_of_ne_nil (hne rest), List.map_append,
        List.append_assoc, rows]
    have hnone : rows [] = [] := rfl
    rw [List.append_assoc, List.singleton_append, hrows, hrows, hnone, List.append_nil]

/-- The revisions of some lines and the reports on them, each line on its own. -/
def transcript (revision : String → Revision) (lines : List (List Char)) : Dialogue where
  output := String.join (lines.map fun line => (revision (String.ofList line)).text ++ "\n")
  report := String.join (lines.map fun line => changeLines (revision (String.ofList line)))

theorem converse_eq_transcript {proofreader : Proofreader} {rules : Rules}
    (h : proofreader.Follows rules) (lines : List (List Char)) :
    converse proofreader (lines.map (List.map some)) = transcript rules.revision lines := by
  induction lines generalizing proofreader with
  | nil => rfl
  | cons line lines ih =>
      obtain ⟨hrevision, hnext⟩ := h.revise (String.ofList line)
      rw [List.map_cons, converse, Text.gapless?_map_some]
      simp only [hrevision, ih hnext, transcript, List.map_cons, String.join_cons]

def Session.reading (session : Session) (input : List UInt8) : Session := { session with input }

/-- A session in which lines are revised as they come in: the arguments ask for it and for nothing
that takes its place, and the settings make a proofreader. -/
structure Converses (session : Session) (options : Options) (proofreader : Proofreader) :
    Prop where
  arguments : readArguments session.arguments {} = .ok (.work options)
  suggest : options.suggest = none
  interactive : options.interactive = true
  settings : loadProofreader session options = .ok proofreader

section Converses

variable {session : Session} {options : Options} {proofreader : Proofreader}

theorem Converses.run_eq (h : Converses session options proofreader) :
    run session = interact proofreader session := by
  simp only [run, h.arguments, work, h.settings, h.suggest, h.interactive, if_true]

theorem Converses.reading (h : Converses session options proofreader) (input : List UInt8) :
    Converses (session.reading input) options proofreader where
  arguments := h.arguments
  suggest := h.suggest
  interactive := h.interactive
  settings := h.settings

/-- What a dialogue prints on a text that can be read. -/
theorem Converses.run_encode (h : Converses session options proofreader) (text : List Char) :
    run (session.reading (Text.encode text)) =
      { code := 0
        output := (transcript (fun line => (proofreader.revise line).1) (rows text)).output
        report := (transcript (fun line => (proofreader.revise line).1) (rows text)).report
        files := session.files } := by
  obtain ⟨rules, -, hfollows, -⟩ := (reachable_of_loadProofreader h.settings).follows
  have hrevision : (fun line => (proofreader.revise line).1) = rules.revision := by
    funext line
    exact (hfollows.revise line).1
  rw [(h.reading _).run_eq, interact, hrevision, Session.reading, Text.decode_encode,
    lines_map_some, converse_eq_transcript hfollows]
  rfl

end Converses

theorem eq_withLexicon_of_loadProofreader {session : Session} {options : Options}
    {proofreader : Proofreader} (h : loadProofreader session options = .ok proofreader) :
    Proofreader.withLexicon proofreader.lexicon proofreader.settings session.cacheSize =
      proofreader := by
  obtain ⟨settings, -, hmade⟩ := exists_of_bind_eq_ok h
  obtain ⟨draft, lexicon, -, rfl⟩ := Proofreader.ofSettings_ok (eq_ok_of_mapError hmade)
  rfl

/-- The answers to two inputs, of which the first ends with a line, are the answers to each of
them. Every line is answered by its revision with a fresh proofreader, without regard to the lines
before it. -/
theorem run_dialogue {session : Session} {options : Options} {proofreader : Proofreader}
    (h : Converses session options proofreader) :
    let fresh :=
      Proofreader.withLexicon proofreader.lexicon proofreader.settings session.cacheSize
    (∀ first second : String, first = "" ∨ first.toList.getLast? = some '\n' →
      let input := Text.encode first.toList
      let input' := Text.encode second.toList
      (run (session.reading (input ++ input'))).output =
          (run (session.reading input)).output ++ (run (session.reading input')).output ∧
        (run (session.reading (input ++ input'))).report =
          (run (session.reading input)).report ++ (run (session.reading input')).report) ∧
    ∀ text : String,
      let outcome := run (session.reading (Text.encode text.toList))
      outcome.code = 0 ∧
      outcome.output = String.join ((rows text.toList).map fun line =>
        (fresh.revise (String.ofList line)).1.text ++ "\n") ∧
      outcome.report = String.join ((rows text.toList).map fun line =>
        changeLines (fresh.revise (String.ofList line)).1) := by
  rw [eq_withLexicon_of_loadProofreader h.settings]
  refine ⟨?_, ?_⟩
  · intro first second hends
    have hrows : rows (first.toList ++ second.toList) =
        rows first.toList ++ rows second.toList := by
      apply rows_append
      rcases hends with rfl | hends
      · exact Or.inl rfl
      · exact Or.inr hends
    simp only [← Text.encode_append, h.run_encode, hrows, transcript, List.map_append,
      String.join_append, and_self]
  · intro text
    rw [h.run_encode]
    exact ⟨rfl, rfl, rfl⟩

def chat : Session where
  arguments := ["--interactive"]

theorem converses_chat : Converses chat { interactive := true } (.standard none) where
  arguments := rfl
  suggest := rfl
  interactive := rfl
  settings := by
    have hsettings : loadSettings chat { interactive := true } = .ok {} := rfl
    have hstandard := ofSettings_standard chat.cacheSize
    rw [loadProofreader_eq hsettings, hstandard]
    rfl

theorem run_dialogue_chat :
    Converses chat { interactive := true } (.standard none) ∧
      rows "likoh (a)\r\n!likoh (b)".toList = ["likoh (a)".toList, "!likoh (b)".toList] ∧
      (run (chat.reading (Text.encode "likoh (a)\r\n!likoh (b)".toList))).output =
        ((Proofreader.standard none).revise "likoh (a)").1.text ++ "\n" ++
          (((Proofreader.standard none).revise "!likoh (b)").1.text ++ "\n") := by
  have hrows : rows "likoh (a)\r\n!likoh (b)".toList =
      ["likoh (a)".toList, "!likoh (b)".toList] := by decide
  obtain ⟨-, hlines⟩ := run_dialogue converses_chat
  obtain ⟨-, houtput, -⟩ := hlines "likoh (a)\r\n!likoh (b)"
  rw [eq_withLexicon_of_loadProofreader converses_chat.settings, hrows] at houtput
  refine ⟨converses_chat, hrows, houtput.trans ?_⟩
  simp only [List.map_cons, List.map_nil, String.join_cons, String.join_nil,
    String.ofList_toList, String.append_empty]

end Respell.Command
