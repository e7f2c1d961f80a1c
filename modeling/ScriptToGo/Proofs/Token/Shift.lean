import Mathlib.Data.List.Basic
import ScriptToGo.Proofs.Token.LiteralSteps
import ScriptToGo.Proofs.Token.Places
import ScriptToGo.Proofs.Token.Steps

/-! Moving a text along in its file moves every range by as much, and changes nothing else. -/
namespace ScriptToGo
open Text (byteLength)

def Span.shift (n : Nat) (s : Span) : Span := ⟨s.start + n, s.stop + n⟩

mutual

/-- A token further on in its file, and with it the tokens inside of it. -/
def Token.shift (n : Nat) : Token → Token
  | .mk kind span => .mk (kind.shift n) (span.shift n)

def TokenKind.shift (n : Nat) : TokenKind → TokenKind
  | .template head holes => .template head (Hole.shiftAll n holes)
  | kind => kind

def Token.shiftAll (n : Nat) : List Token → List Token
  | [] => []
  | token :: tokens => token.shift n :: Token.shiftAll n tokens

def Hole.shift (n : Nat) : Hole → Hole
  | .mk tokens span after => .mk (Token.shiftAll n tokens) (span.shift n) after

def Hole.shiftAll (n : Nat) : List Hole → List Hole
  | [] => []
  | hole :: holes => hole.shift n :: Hole.shiftAll n holes

end

theorem Token.shiftAll_eq_map (n : Nat) (tokens : List Token) :
    Token.shiftAll n tokens = tokens.map (Token.shift n) := by
  induction tokens with
  | nil => rfl
  | cons token rest ih => rw [Token.shiftAll, ih, List.map_cons]

theorem Hole.shiftAll_eq_map (n : Nat) (holes : List Hole) :
    Hole.shiftAll n holes = holes.map (Hole.shift n) := by
  induction holes with
  | nil => rfl
  | cons hole rest ih => rw [Hole.shiftAll, ih, List.map_cons]

theorem TokenKind.shift_of_plain {kind : TokenKind} (n : Nat)
    (h : ∀ head holes, kind ≠ .template head holes) : kind.shift n = kind := by
  cases kind with
  | template head holes => exact absurd rfl (h head holes)
  | _ => rfl

def SyntaxError.shift (n : Nat) (e : SyntaxError) : SyntaxError := ⟨e.fault, e.span.shift n⟩

def LiteralText.shift (n : Nat) (t : LiteralText) : LiteralText :=
  ⟨t.chars, t.faults.map (SyntaxError.shift n)⟩

def StringScan.shift (n : Nat) (s : StringScan) : StringScan := ⟨s.text.shift n, s.pos + n, s.rest⟩

def HoleText.shift (n : Nat) (h : HoleText) : HoleText := ⟨h.pos + n, h.chars, h.after.shift n⟩

def TemplateScan.shift (n : Nat) (t : TemplateScan) : TemplateScan :=
  ⟨t.head.shift n, t.holes.map (HoleText.shift n), t.pos + n, t.rest⟩

def Lexeme.shift (n : Nat) : Lexeme → Lexeme
  | skipped => skipped
  | token kind => token kind
  | template head holes => template (head.shift n) (holes.map (HoleText.shift n))
  | faulty errors => faulty (errors.map (SyntaxError.shift n))

def Scan.shift (n : Nat) (s : Scan) : Scan := ⟨s.lexeme.shift n, s.pos + n, s.rest⟩

namespace LiteralText

theorem shift_writeEscape (n start stop : Nat) (outcome : Except SyntaxFault (List Char))
    (t : LiteralText) :
    (t.writeEscape outcome start stop).shift n
      = (t.shift n).writeEscape outcome (start + n) (stop + n) := by
  cases outcome <;> rfl

end LiteralText

theorem StringScan.shift_writeEscape (n start stop : Nat)
    (outcome : Except SyntaxFault (List Char)) (s : StringScan) :
    (s.writeEscape outcome start stop).shift n
      = (s.shift n).writeEscape outcome (start + n) (stop + n) := by
  rw [writeEscape, shift, LiteralText.shift_writeEscape]
  rfl

theorem TemplateScan.shift_writeEscape (n start stop : Nat)
    (outcome : Except SyntaxFault (List Char)) (t : TemplateScan) :
    (t.writeEscape outcome start stop).shift n
      = (t.shift n).writeEscape outcome (start + n) (stop + n) := by
  rw [writeEscape, shift, LiteralText.shift_writeEscape]
  rfl

theorem skipComment_shift (n pos : Nat) (cs : List Char) :
    skipComment (pos + n) cs = (skipComment pos cs).map fun (next, after) => (next + n, after) := by
  induction cs generalizing pos with
  | nil => rfl
  | cons c rest ih =>
    rw [skipComment, skipComment]
    split
    · rw [Option.map_some, Nat.add_right_comm]
    · rw [Nat.add_right_comm, ih]

theorem scanString_shift (n start : Nat) (quote : Char) (pos : Nat) (cs : List Char) :
    scanString (start + n) quote (pos + n) cs = (scanString start quote pos cs).shift n := by
  induction pos, cs using scanString_induction quote with
  | nil pos =>
    rw [scanString_nil, scanString_nil]
    rfl
  | close pos rest =>
    rw [scanString_close, scanString_close, Nat.add_right_comm]
    rfl
  | backslash pos other =>
    rw [scanString_backslash _ _ other, scanString_backslash _ _ other, Nat.add_right_comm]
    rfl
  | escape pos e rest other ih =>
    have moved : pos + n + 1 + e.utf8Size + (Escape.read e rest).extra
        = pos + 1 + e.utf8Size + (Escape.read e rest).extra + n := by omega
    simp only [scanString_escape _ _ _ other, StringScan.shift_writeEscape, ← ih, moved]
  | mark pos rest other ih =>
    rw [scanString_mark _ _ _ other, scanString_mark _ _ _ other, Nat.add_right_comm, ih]
    rfl
  | lineEnd pos rest other =>
    rw [scanString_lineEnd _ _ _ other, scanString_lineEnd _ _ _ other, Nat.add_right_comm]
    rfl
  | char pos c rest other plain unmarked inLine ih =>
    rw [scanString_char _ _ _ other plain unmarked inLine,
      scanString_char _ _ _ other plain unmarked inLine, Nat.add_right_comm, ih]
    rfl

theorem scanTemplate_shift (n start pos : Nat) (cs : List Char) :
    scanTemplate (start + n) (pos + n) cs = (scanTemplate start pos cs).shift n := by
  induction pos, cs using scanTemplate_induction with
  | nil pos =>
    rw [scanTemplate_nil, scanTemplate_nil]
    rfl
  | close pos rest =>
    rw [scanTemplate_close, scanTemplate_close, Nat.add_right_comm]
    rfl
  | backslash pos =>
    rw [scanTemplate_backslash, scanTemplate_backslash, Nat.add_right_comm]
    rfl
  | escape pos e rest ih =>
    have moved : pos + n + 1 + e.utf8Size + (Escape.read e rest).extra
        = pos + 1 + e.utf8Size + (Escape.read e rest).extra + n := by omega
    simp only [scanTemplate_escape, TemplateScan.shift_writeEscape, ← ih, moved]
  | unclosed pos rest unclosed =>
    have moved : pos + n + 2 + byteLength rest = pos + 2 + byteLength rest + n := by omega
    rw [scanTemplate_unclosed _ _ _ unclosed, scanTemplate_unclosed _ _ _ unclosed, moved]
    rfl
  | hole pos rest inner after closed ih =>
    have moved : pos + n + 2 + byteLength inner + 1 = pos + 2 + byteLength inner + 1 + n := by omega
    rw [scanTemplate_hole _ _ _ closed, scanTemplate_hole _ _ _ closed, moved, ih,
      Nat.add_right_comm]
    rfl
  | mark pos rest ih =>
    rw [scanTemplate_mark, scanTemplate_mark, Nat.add_right_comm, ih]
    rfl
  | lineEnd pos rest ih =>
    rw [scanTemplate_lineEnd, scanTemplate_lineEnd, Nat.add_right_comm, ih]
    rfl
  | char pos c rest other plain closed unmarked inLine ih =>
    rw [scanTemplate_char _ _ _ other plain closed unmarked inLine,
      scanTemplate_char _ _ _ other plain closed unmarked inLine, Nat.add_right_comm, ih]
    rfl

namespace Scan

theorem next_shift (n pos : Nat) (c : Char) (rest : List Char) :
    next (pos + n) c rest = (next pos c rest).shift n := by
  refine next_cases (motive := fun scan => scan (pos + n) = (scan pos).shift n)
    ?blank ?lineComment ?blockComment ?string ?template ?number ?word ?symbol
  case blank =>
    intro _
    simp only [Nat.add_right_comm pos n]
    rfl
  case lineComment =>
    intro _
    simp only [lineComment, shift, Lexeme.shift, Scan.mk.injEq, and_true, true_and]
    omega
  case blockComment =>
    intro _
    simp only [blockComment, Nat.add_right_comm pos n, skipComment_shift n]
    cases skipComment (pos + 2) (rest.drop 1) with
    | some found => rfl
    | none =>
      simp only [Option.map_none, Nat.add_right_comm _ n]
      rfl
  case string =>
    intro _
    simp only [string, Nat.add_right_comm pos n, scanString_shift]
    cases is : (scanString pos c (pos + 1) rest).text.faults with
    | nil => simp only [StringScan.shift, LiteralText.shift, is]; rfl
    | cons fault faults => simp only [StringScan.shift, LiteralText.shift, is]; rfl
  case template =>
    intro _
    simp only [template, Nat.add_right_comm pos n, scanTemplate_shift]
    rfl
  case number =>
    intro _
    simp only [number, Nat.add_right_comm pos n]
    cases (NumberScan.read c rest).fault? with
    | none => rfl
    | some fault => rfl
  case word =>
    intro _
    simp only [word, shift, Lexeme.shift, Scan.mk.injEq, and_true, true_and]
    omega
  case symbol =>
    simp only [symbol, Nat.add_right_comm pos n]
    cases symbolAt? (c :: rest) with
    | some found => rfl
    | none => rfl

end Scan

/-- Ranges and faults of a text that stands further on in its file. -/
def Lexed.shift (n : Nat) (lexed : Lexed) : Lexed :=
  ⟨lexed.tokens.map (Token.shift n), lexed.errors.map (SyntaxError.shift n)⟩

theorem HoleText.lexed_shift {n : Nat} {hole : HoleText}
    (inside : lexFrom (hole.pos + n) hole.chars = (lexFrom hole.pos hole.chars).shift n) :
    (hole.shift n).lexed = hole.lexed.shift n ∧
      (hole.shift n).errors = hole.errors.map (SyntaxError.shift n) := by
  have moved : hole.pos + n + byteLength hole.chars = hole.pos + byteLength hole.chars + n :=
    Nat.add_right_comm ..
  constructor
  · simp only [lexed, shift, inside, Lexed.shift, Hole.shift, Token.shiftAll_eq_map, moved]
    rfl
  · simp only [errors, shift, inside, Lexed.shift, LiteralText.shift, List.map_append]

theorem lexFrom_shift (n pos : Nat) (cs : List Char) :
    lexFrom (pos + n) cs = (lexFrom pos cs).shift n := by
  induction pos, cs using lexFrom_induction with
  | nil pos =>
    rw [lexFrom_nil, lexFrom_nil]
    rfl
  | cons pos c rest tail inside =>
    rw [lexFrom_cons, lexFrom_cons, Scan.next_shift]
    dsimp only [Scan.shift]
    rw [tail]
    cases is : (Scan.next pos c rest).lexeme with
    | skipped => rfl
    | token kind =>
      have plain := TokenKind.shift_of_plain n (Scan.next_token is)
      simp only [Lexeme.shift, Lexeme.tokens, Lexeme.errors, Lexed.shift, List.singleton_append,
        List.map_cons, Token.shift, plain, List.nil_append]
      rfl
    | faulty errors =>
      simp [Lexeme.shift, Lexeme.tokens, Lexeme.errors, Lexed.shift]
    | template head holes =>
      have tokens : (holes.map (HoleText.shift n)).map HoleText.lexed
          = Hole.shiftAll n (holes.map HoleText.lexed) := by
        rw [Hole.shiftAll_eq_map, List.map_map, List.map_map]
        exact List.map_congr_left fun hole mem => (HoleText.lexed_shift (inside _ _ is hole mem)).1
      have errors : (holes.map (HoleText.shift n)).flatMap HoleText.errors
          = (holes.flatMap HoleText.errors).map (SyntaxError.shift n) := by
        rw [List.flatMap_map, List.map_flatMap]
        exact List.flatMap_congr fun hole mem => (HoleText.lexed_shift (inside _ _ is hole mem)).2
      simp only [Lexeme.shift, Lexeme.tokens, Lexeme.errors, Lexed.shift, List.singleton_append,
        List.map_cons, List.map_append, Token.shift, TokenKind.shift, tokens, errors]
      rfl

end ScriptToGo
