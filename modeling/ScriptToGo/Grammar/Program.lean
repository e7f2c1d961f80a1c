import ScriptToGo.Grammar.Statement
import ScriptToGo.Token.Stream

/-! Reading whole programs. -/
namespace ScriptToGo

namespace Keyword

/-- Words at which reading takes up again after an error. -/
def opensStatement : Keyword → Bool
  | functionWord | importWord | exportWord | interfaceWord | typeWord | constWord | letWord
  | varWord | forWord | ifWord | whileWord | doWord | returnWord => true
  | _ => false

end Keyword

namespace TokenKind

/-- Whether a statement may start at the token. -/
def opensStatement : TokenKind → Bool
  | keyword word => word.opensStatement
  | _ => false

/-- Whether a statement may end with the token. -/
def closesStatement : TokenKind → Bool
  | punctuation .semicolon | punctuation .rightBrace => true
  | _ => false

end TokenKind

namespace Grammar

/-- Skips to where the next statement may start, given the token read last. -/
def resume (last : TokenKind) (c : Cursor) : Cursor :=
  if last.closesStatement || c.peek.kind.opensStatement || c.atEnd then c
  else
    match c.next? with
    | none => c
    | some ⟨kind, _, next, _, _⟩ => resume kind next
termination_by c.size

/-- Skips the token at which an error was noticed, and goes on to where the next statement may
start. -/
def recover (c : Cursor) : Cursor :=
  match c.next? with
  | none => c
  | some ⟨kind, _, next, _, _⟩ => resume kind next

theorem resume_size (last : TokenKind) (c : Cursor) : (resume last c).size ≤ c.size := by
  fun_induction resume last c with
  | case1 => exact Nat.le_refl _
  | case2 => exact Nat.le_refl _
  | case3 last c _ kind span next _ shorter _ ih => omega

theorem recover_size {c : Cursor} (h : c.atEnd = false) : (recover c).size < c.size := by
  obtain ⟨⟨kind, span, next, _, shorter⟩, found⟩ := Cursor.exists_next? h
  have := resume_size kind next
  rw [recover, found]
  simp only
  omega

/-- The statements of a program, and the errors found among them, both in source order. -/
structure Parsed where
  statements : List Statement
  /-- The errors, at most one for each stretch that could not. -/
  errors : List SyntaxError

/-- Reads statements to the end of the text, and goes on after errors. -/
def program (c : Cursor) : Parsed :=
  if c.atEnd then ⟨[], []⟩
  else
    match statement c with
    | .ok first next _ =>
      let others := program next
      ⟨first :: others.statements, others.errors⟩
    | .fail error place _ =>
      if _h : place.atEnd then ⟨[], [error]⟩
      else
        have := recover_size (Bool.eq_false_iff.2 _h)
        let others := program (recover place)
        ⟨others.statements, error :: others.errors⟩
termination_by c.size

end Grammar

/-- The program that tokens write, or everything that is wrong with them. Tokens that do not end
write nothing. -/
def Program.ofTokens (tokens : List Token) : Except (List SyntaxError) Program :=
  match Cursor.ofTokens? tokens with
  | none => .error []
  | some start =>
    let parsed := Grammar.program start
    if parsed.errors.isEmpty then .ok parsed.statements else .error parsed.errors

theorem Program.ofTokens_eq_ok_iff {tokens : List Token} {program : Program} :
    ofTokens tokens = .ok program ↔
      ∃ start, Cursor.ofTokens? tokens = some start ∧ Grammar.program start = ⟨program, []⟩ := by
  rw [ofTokens]
  cases Cursor.ofTokens? tokens with
  | none => simp
  | some start =>
    cases is : Grammar.program start with
    | mk statements errors => cases errors <;> simp [is]

/-- The program that a source text writes. A text with faulty tokens is not read further. -/
def Program.ofSource (source : String) : Except (List SyntaxError) Program :=
  (tokenize source 0).bind Program.ofTokens

theorem Program.ofSource_eq_ok_iff {source : String} {program : Program} :
    ofSource source = .ok program ↔
      ∃ tokens, tokenize source 0 = .ok tokens ∧ ofTokens tokens = .ok program := by
  rw [ofSource]
  cases tokenize source 0 <;> simp [Except.bind]

end ScriptToGo
