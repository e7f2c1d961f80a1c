/-! The reserved words of the source language. -/
namespace ScriptToGo

/-- A reserved word. Words that are contextual in larger dialects are reserved everywhere here. -/
inductive Keyword
  | ifWord | elseWord | forWord | whileWord | doWord | returnWord
  | functionWord | interfaceWord | typeWord | constWord | letWord | varWord
  | importWord | exportWord | defaultWord | fromWord | asWord
  | trueWord | falseWord | nullWord
deriving DecidableEq

/-- What a reserved word is used for. -/
inductive Keyword.Category
  | controlFlow | declaration | modules | literal
deriving DecidableEq

namespace Keyword

def all : List Keyword :=
  [ifWord, elseWord, forWord, whileWord, doWord, returnWord,
   functionWord, interfaceWord, typeWord, constWord, letWord, varWord,
   importWord, exportWord, defaultWord, fromWord, asWord,
   trueWord, falseWord, nullWord]

def spelling : Keyword → String
  | ifWord => "if"
  | elseWord => "else"
  | forWord => "for"
  | whileWord => "while"
  | doWord => "do"
  | returnWord => "return"
  | functionWord => "function"
  | interfaceWord => "interface"
  | typeWord => "type"
  | constWord => "const"
  | letWord => "let"
  | varWord => "var"
  | importWord => "import"
  | exportWord => "export"
  | defaultWord => "default"
  | fromWord => "from"
  | asWord => "as"
  | trueWord => "true"
  | falseWord => "false"
  | nullWord => "null"

/-- The category under which a reserved word is listed. -/
def category : Keyword → Category
  | ifWord | elseWord | forWord | whileWord | doWord | returnWord => .controlFlow
  | functionWord | interfaceWord | typeWord | constWord | letWord | varWord => .declaration
  | importWord | exportWord | defaultWord | fromWord | asWord => .modules
  | trueWord | falseWord | nullWord => .literal

/-- The reserved word with this spelling; case matters. -/
def ofSpelling? (text : String) : Option Keyword :=
  all.find? (·.spelling == text)

end Keyword

end ScriptToGo
