import Respell.Lexicon.Draft

/-! # The standard lexicon -/

namespace Respell.Lexicon

namespace Standard

def keywords : List String :=
  ["agar", "nahi_to", "ya_phir", "jabtak", "liye", "karo", "karya", "vapas", "break", "continue",
    "class", "banao", "ye", "super", "extends", "new", "try", "catch", "finally", "throw", "lambda",
    "se", "tak", "mein", "ke", "sach", "jhooth", "khaali", "aur", "ya", "nahi", "case", "default",
    "static", "import_karo", "as", "in", "lo"]

def builtins : List String :=
  ["likho", "input_lo", "float_lo", "int_lo", "batao", "samjhao", "samjhao_on", "samjhao_off",
    "time_machine_on", "time_machine_off", "time_machine_status", "peeche", "aage", "timeline",
    "math_absolute", "math_square", "math_power", "math_random", "math_upar", "math_gol",
    "math_sin", "math_cos", "math_tan", "math_log", "math_exp", "type_of", "prakar", "string_hai",
    "array_hai", "int_hai", "float_hai", "bool_hai", "obj_hai", "string_bnao", "float_bnao",
    "int_bnao", "bool_bnao", "lambai", "range", "repeatkr", "file_padho", "file_likho",
    "file_append", "file_hai", "file_delete", "file_copy", "file_move", "file_size", "dir_banao",
    "dir_list", "json_stringify", "json_parse", "time_now", "time_sleep"]

def arrayMethods : List String :=
  ["push", "pop", "shift", "unshift", "map", "filter", "reduce", "dalo", "jodo", "nikalo", "hatao",
    "badlo"]

def stringMethods : List String :=
  ["upper", "lower", "trim", "split", "replace", "contains", "starts_with", "ends_with"]

def objectMethods : List String :=
  ["keys", "values", "items", "has_key", "get", "remove"]

def reserved : List String :=
  ["exit", "quit", "help", "clear", "vars", "history", "qhelp", "credits", "copyright"]

end Standard

def Draft.standard : Draft :=
  ({} : Draft)
    |>.addWords .keyword Standard.keywords
    |>.addWords .builtin Standard.builtins
    |>.addWords .arrayMethod Standard.arrayMethods
    |>.addWords .stringMethod Standard.stringMethods
    |>.addWords .objectMethod Standard.objectMethods
    |>.addReserved Standard.reserved

/-- The lexicon of the standard word lists, which have no conflicts. -/
def standard : Lexicon :=
  match Draft.standard.build with
  | .ok lexicon => lexicon
  | .error _ => {}

end Respell.Lexicon
