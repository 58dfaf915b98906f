import LazeEdit.Text.Basic

/-!
# Words of the language

The words with a meaning of their own, each table pairing a word's internal key with the form that
authors write.
-/

namespace LazeEdit

/-- A word of the language: its internal key and the form that is written. -/
structure Word where
  key : String
  form : Text
  deriving DecidableEq, Repr

/-- The word that declares a function. -/
def functionWord : Text := ['関', '数']

/-- The word that declares a class. -/
def classWord : Text := ['ク', 'ラ', 'ス']

/-- The word between the declaration and the condition of a counting loop. -/
def fromWord : Text := ['か', 'ら']

/-- The word between the condition and the step of a counting loop. -/
def untilWord : Text := ['ま', 'で']

/-- The word that repeats a block a number of times. -/
def repeatWord : Text := ['回', '繰', 'り', '返', 'す']

/-- The word that begins private members. -/
def privateWord : Text := ['非', '公', '開']

/-- The word that begins public members. -/
def publicWord : Text := ['公', '開']

/-- The type of whole numbers of 64 bits. -/
def int64Word : Text := ['整', '数']

/-- The keywords. -/
def keywords : List Word :=
  [⟨"true", ['真']⟩, ⟨"false", ['偽']⟩, ⟨"function", functionWord⟩, ⟨"class", classWord⟩]

/-- The functions that are always there. -/
def builtinFunctions : List Word :=
  [⟨"loadJS", ['j', 's', '読', 'み', '込', 'み']⟩, ⟨"sizeof", ['バ', 'イ', 'ト', '数']⟩]

/-- The words of control flow, inclusion and access. -/
def controls : List Word :=
  [⟨"end", ['終', '了']⟩, ⟨"if", ['も', 'し']⟩, ⟨"then", ['な', 'ら', 'ば']⟩,
    ⟨"else", ['で', 'な', 'け', 'れ', 'ば']⟩, ⟨"from", fromWord⟩, ⟨"until", untilWord⟩,
    ⟨"break", ['抜', 'け', 'る']⟩, ⟨"continue", ['次', 'へ']⟩, ⟨"repeat", repeatWord⟩,
    ⟨"loop", ['無', '限', 'ル', 'ー', 'プ']⟩, ⟨"include", ['#', 'i', 'n', 'c', 'l', 'u', 'd', 'e']⟩,
    ⟨"private", privateWord⟩, ⟨"public", publicWord⟩]

/-- The types of the language. -/
def builtinTypes : List Word :=
  [⟨"void", ['無']⟩, ⟨"boolean", ['真', '偽']⟩, ⟨"int32", ['整', '数', '3', '2']⟩,
    ⟨"int64", int64Word⟩, ⟨"double", ['実', '数']⟩, ⟨"char", ['文', '字']⟩,
    ⟨"string", ['文', '字', '列']⟩]

/-- The forms of the keywords. -/
def keywordForms : List Text := keywords.map Word.form

/-- The forms of the functions that are always there. -/
def builtinFunctionForms : List Text := builtinFunctions.map Word.form

/-- The forms of the control words. -/
def controlForms : List Text := controls.map Word.form

/-- The forms of the types of the language. -/
def builtinTypeForms : List Text := builtinTypes.map Word.form

/-- The name of the counter in the body of a repeated block. -/
def counterName : Text := ['カ', 'ウ', 'ン', 'タ']

end LazeEdit
