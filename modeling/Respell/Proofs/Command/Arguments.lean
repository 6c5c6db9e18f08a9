import Respell.Command.Options

namespace Respell.Command

def Token.takesValue : Token → Bool
  | output | config | suggest | role => true
  | _ => false

/-- What an argument is, with its value if it takes one and else with its own text. -/
abbrev Item := Token × String

def items : List String → List Item
  | [] => []
  | argument :: rest =>
      match (Token.of argument).takesValue, rest with
      | true, value :: rest => (Token.of argument, value) :: items rest
      | _, rest => (Token.of argument, argument) :: items rest

section Items

variable {argument : String} {token : Token} (htoken : Token.of argument = token)

include htoken

theorem items_cons_value (htakes : token.takesValue = true) (value : String)
    (rest : List String) :
    items (argument :: value :: rest) = (token, value) :: items rest := by
  subst htoken
  simp only [items, htakes]

theorem items_cons_single (htakes : token.takesValue = false) (rest : List String) :
    items (argument :: rest) = (token, argument) :: items rest := by
  subst htoken
  rw [items]
  intro value others hvalue
  rw [htakes] at hvalue
  cases hvalue

end Items

/-- Takes over one item. A role that does not exist is passed over. -/
def Options.accept (options : Options) : Item → Options
  | (.output, text) => { options with output := some text }
  | (.config, text) => { options with config := some text }
  | (.suggest, text) => { options with suggest := some text }
  | (.role, text) => { options with role := (Role.ofName? text).getD options.role }
  | (.check, _) => { options with check := true }
  | (.interactive, _) => { options with interactive := true }
  | (.input, text) => { options with input := some text }
  | (.help, _) | (.version, _) | (.logging, _) | (.unknown, _) => options

/-- What some items ask for, on top of given options. -/
def Request.Fits (said : List Item) (options : Options) : Request → Prop
  | .help => ∃ item ∈ said, item.1 = .help
  | .version => ∃ item ∈ said, item.1 = .version
  | .work result => result = said.foldl Options.accept options ∧
      ∀ item ∈ said, item.1 ≠ .help ∧ item.1 ≠ .version

theorem Request.Fits.cons {said : List Item} {options : Options} {token : Token} {text : String}
    {request : Request} (h : request.Fits said (options.accept (token, text)))
    (htoken : token ≠ .help ∧ token ≠ .version) :
    request.Fits ((token, text) :: said) options := by
  cases request with
  | help =>
      obtain ⟨item, hitem, hhelp⟩ := h
      exact ⟨item, List.mem_cons_of_mem _ hitem, hhelp⟩
  | version =>
      obtain ⟨item, hitem, hversion⟩ := h
      exact ⟨item, List.mem_cons_of_mem _ hitem, hversion⟩
  | work result => exact ⟨h.1, List.forall_mem_cons.mpr ⟨htoken, h.2⟩⟩

/-- Arguments that are read without a mistake ask for what their items ask for. -/
theorem fits_of_readArguments {arguments : List String} {options : Options} {request : Request}
    (h : readArguments arguments options = .ok request) :
    request.Fits (items arguments) options := by
  fun_induction readArguments arguments options with
  | case1 options =>
      obtain rfl := Except.ok.inj h
      exact ⟨rfl, by simp [items]⟩
  | case2 options argument rest htoken =>
      obtain rfl := Except.ok.inj h
      rw [items_cons_single htoken rfl]
      exact ⟨_, List.mem_cons_self, rfl⟩
  | case3 options argument rest htoken =>
      obtain rfl := Except.ok.inj h
      rw [items_cons_single htoken rfl]
      exact ⟨_, List.mem_cons_self, rfl⟩
  | case5 | case7 | case9 | case11 | case12 | case16 | case17 => cases h
  | case4 _ _ _ _ htoken ih | case6 _ _ _ _ htoken ih | case8 _ _ _ _ htoken ih =>
      rw [items_cons_value htoken rfl]
      exact (ih h).cons (by decide)
  | case10 options argument value rest htoken role hrole ih =>
      rw [items_cons_value htoken rfl]
      apply Request.Fits.cons _ (by decide)
      rw [Options.accept, hrole]
      exact ih h
  | case13 _ _ _ htoken ih | case14 _ _ _ htoken ih | case15 _ _ _ htoken ih =>
      rw [items_cons_single htoken rfl]
      exact (ih h).cons (by decide)
  | case18 _ _ _ htoken _ ih =>
      rw [items_cons_single htoken rfl]
      exact (ih h).cons (by decide)

/-- The path name that is named last for the output. -/
def lastOutput? (arguments : List String) : Option String :=
  ((items arguments).filter fun item => item.1 = .output).getLast?.map Prod.snd

/-- The arguments ask for a correction: nothing in them asks for help, the version, suggestions, a
dialogue or a check. -/
def isPlain (arguments : List String) : Bool :=
  (items arguments).all fun item =>
    item.1 ∉ [Token.help, .version, .suggest, .interactive, .check]

theorem output_foldl_accept (said : List Item) (options : Options) :
    (said.foldl Options.accept options).output =
      ((said.filter fun item => item.1 = .output).getLast?.map Prod.snd).or options.output := by
  induction said generalizing options with
  | nil => rfl
  | cons item said ih =>
      obtain ⟨token, text⟩ := item
      rw [List.foldl_cons, ih]
      cases token with
      | output =>
          rw [List.filter_cons_of_pos rfl, List.getLast?_cons]
          cases (said.filter fun item => item.1 = .output).getLast? <;> rfl
      | help | version | config | suggest | role | check | interactive | logging | unknown
      | input => rfl

def Options.isPlain (options : Options) : Bool :=
  options.suggest.isNone && !options.interactive && !options.check

theorem isPlain_foldl_accept (said : List Item) (options : Options) :
    (said.foldl Options.accept options).isPlain =
      (options.isPlain && said.all fun item =>
        item.1 ∉ [Token.suggest, .interactive, .check]) := by
  induction said generalizing options with
  | nil => exact (Bool.and_true _).symm
  | cons item said ih =>
      obtain ⟨token, text⟩ := item
      have hstep : (options.accept (token, text)).isPlain =
          (options.isPlain && decide (token ∉ [Token.suggest, .interactive, .check])) := by
        cases token <;> simp [Options.accept, Options.isPlain]
      rw [List.foldl_cons, ih, hstep, List.all_cons, Bool.and_assoc]

section Work

variable {arguments : List String} {options : Options}
  (h : readArguments arguments {} = .ok (.work options))

include h

theorem output_of_readArguments : options.output = lastOutput? arguments := by
  obtain ⟨rfl, -⟩ := fits_of_readArguments h
  rw [output_foldl_accept]
  exact Option.or_none

theorem isPlain_of_readArguments : options.isPlain = isPlain arguments := by
  obtain ⟨rfl, hnone⟩ := fits_of_readArguments h
  rw [isPlain_foldl_accept, isPlain]
  rw [Bool.eq_iff_iff, Bool.and_eq_true, List.all_eq_true, List.all_eq_true]
  constructor
  · rintro ⟨-, hall⟩ item hitem
    obtain ⟨hhelp, hversion⟩ := hnone item hitem
    have hothers := hall item hitem
    simp_all
  · intro hall
    refine ⟨rfl, ?_⟩
    intro item hitem
    have hothers := hall item hitem
    simp_all

end Work

end Respell.Command
