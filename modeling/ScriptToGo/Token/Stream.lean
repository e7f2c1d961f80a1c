import ScriptToGo.Token.Lexer

/-! The token stream of a source text. -/
namespace ScriptToGo

theorem skipComment_length {pos next : Nat} {cs after : List Char}
    (h : skipComment pos cs = some (next, after)) : after.length ≤ cs.length := by
  fun_induction skipComment pos cs with
  | case1 => simp at h
  | case2 pos c rest hc =>
    obtain ⟨-, rfl⟩ := Prod.mk.inj (Option.some.inj h)
    simp only [List.length_drop, List.length_cons]; omega
  | case3 pos c rest hc ih =>
    have := ih h
    simp only [List.length_cons]; omega

theorem symbolAt?_pos {c : Char} {rest : List Char} {kind : TokenKind} {length : Nat}
    (h : symbolAt? (c :: rest) = some (kind, length)) : 0 < length := by
  obtain ⟨size, hs, h⟩ := List.exists_of_findSome?_eq_some h
  obtain ⟨_, _, hk⟩ := Option.map_eq_some_iff.1 h
  obtain ⟨-, rfl⟩ := Prod.mk.inj hk
  simp only [List.mem_cons, List.not_mem_nil, or_false] at hs
  simp only [List.length_take, List.length_cons]
  omega

/-- A word leaves no more than followed its first character. -/
theorem dropWhile_length_le {α : Type} (p : α → Bool) (xs : List α) :
    (xs.dropWhile p).length ≤ xs.length :=
  (List.dropWhile_suffix p).length_le

namespace Scan

/-- The text inside the interpolations of a lexeme and the text left after it. -/
def pending (s : Scan) : Nat :=
  match s.lexeme with
  | .template _ holes => holesLength holes + s.rest.length
  | _ => s.rest.length

/-- Reading a lexeme takes its first character at least. -/
theorem next_pending (pos : Nat) (c : Char) (rest : List Char) :
    (next pos c rest).pending ≤ rest.length := by
  have word := dropWhile_length_le (α := Char)
  rw [next]
  split
  · simp [pending]
  split
  · simp [pending, lineComment, word]
  split
  · rw [blockComment]
    split
    next h =>
      have := skipComment_length h
      simp only [List.length_drop] at this
      simp only [pending]; omega
    · simp [pending]
  split
  · have := scanString_rest_length pos c (pos + 1) rest
    rw [string]
    cases (scanString pos c (pos + 1) rest).text.faults <;> simpa [pending]
  split
  · exact scanTemplate_length pos (pos + 1) rest
  split
  · have h := congrArg List.length (NumberScan.read_append c rest)
    have hc := List.length_pos_iff.2 (NumberScan.read_chars_ne_nil c rest)
    simp only [List.length_append, List.length_cons] at h
    rw [number]
    cases (NumberScan.read c rest).fault? <;> simp only [pending] <;> omega
  split
  · simp [pending, Scan.word, word]
  · rw [symbol]
    split
    next h =>
      have := symbolAt?_pos h
      simp only [pending, List.length_drop, List.length_cons]; omega
    · simp [pending]

/-- What is left after a lexeme is shorter than the text. -/
theorem next_rest_length (pos : Nat) (c : Char) (rest : List Char) :
    (next pos c rest).rest.length ≤ rest.length := by
  refine Nat.le_trans ?_ (next_pending pos c rest)
  rw [pending]; split <;> omega

/-- The interpolations of a template are shorter than the text. -/
theorem next_holes_length {pos : Nat} {c : Char} {rest : List Char} {head : LiteralText}
    {holes : List HoleText} (h : (next pos c rest).lexeme = .template head holes) :
    holesLength holes ≤ rest.length := by
  refine Nat.le_trans ?_ (next_pending pos c rest)
  simp only [pending, h]; omega

end Scan

/-- The tokens of a text, and what is wrong with it, both in source order. -/
structure Lexed where
  /-- The tokens, of which the last is the end of the text. -/
  tokens : List Token
  errors : List SyntaxError

/-- The interpolations of a template, and what is wrong in them and in the text after each. -/
structure LexedHoles where
  holes : List Hole
  errors : List SyntaxError

mutual

/-- Cuts a text that starts at offset `pos` of its file into tokens. -/
def lexFrom (pos : Nat) (cs : List Char) : Lexed :=
  match cs with
  | [] => ⟨[.mk .eof ⟨pos, pos⟩], []⟩
  | c :: rest =>
    let s := Scan.next pos c rest
    have _shorter := Nat.lt_succ_of_le (Scan.next_rest_length pos c rest)
    match _h : s.lexeme with
    | .skipped => lexFrom s.pos s.rest
    | .token kind =>
      let tail := lexFrom s.pos s.rest
      ⟨.mk kind ⟨pos, s.pos⟩ :: tail.tokens, tail.errors⟩
    | .template head holes =>
      let inner := lexHoles holes
      let tail := lexFrom s.pos s.rest
      ⟨.mk (.template (String.ofList head.chars) inner.holes) ⟨pos, s.pos⟩ :: tail.tokens,
        head.faults ++ inner.errors ++ tail.errors⟩
    | .faulty errors =>
      let tail := lexFrom s.pos s.rest
      ⟨tail.tokens, errors ++ tail.errors⟩
termination_by cs.length
decreasing_by
  · exact _shorter
  · exact _shorter
  · exact Nat.lt_succ_of_le (Scan.next_holes_length _h)
  · exact _shorter
  · exact _shorter

/-- Cuts the text of each interpolation into tokens. -/
def lexHoles (holes : List HoleText) : LexedHoles :=
  match holes with
  | [] => ⟨[], []⟩
  | hole :: holes =>
    let inner := lexFrom hole.pos hole.chars
    let tail := lexHoles holes
    let span := ⟨hole.pos, hole.pos + Text.byteLength hole.chars⟩
    ⟨.mk inner.tokens span (String.ofList hole.after.chars) :: tail.holes,
      inner.errors ++ hole.after.faults ++ tail.errors⟩
termination_by holesLength holes
decreasing_by all_goals simp only [holesLength]; omega

end

/-- The tokens of a source text that starts at offset `base` of its file, or everything that is
wrong with it. -/
def tokenize (source : String) (base : Nat) : Except (List SyntaxError) (List Token) :=
  let lexed := lexFrom base source.toList
  if lexed.errors.isEmpty then .ok lexed.tokens else .error lexed.errors

end ScriptToGo
