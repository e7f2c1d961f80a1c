/-! Spellings that generated Go code is written with. -/
namespace ScriptToGo.Target

def string : String := "string"

/-- What a number becomes when its type is known. -/
def int : String := "int"

/-- What the word number becomes in free-form type text. -/
def int32 : String := "i32"

/-- What a fractional literal becomes in free-form type text. -/
def float : String := "f64"

def bool : String := "bool"

def void : String := "void"

def slice : String := "[]"

def len : String := "len"

def sprintf : String := "fmt.Sprintf"

def fmtModule : String := "fmt"

def verb : String := "%v"

def func : String := "func"

def var : String := "var"

/-- Declares a variable with the type of its value. -/
def shortDeclaration : String := ":="

/-- The package of generated code, unless told otherwise. -/
def defaultPackage : String := "main"

/-- The imports of generated code, unless told otherwise. -/
def defaultImports : List String := [fmtModule, "ts2go/console"]

def outputFile : String := "main.go"

end ScriptToGo.Target
