import ScriptToGo.Proofs.Token.Coverage

/-! A lexeme that is read without fault stays as it is when its text goes on behind a line end. -/
namespace ScriptToGo
open Text (isDigit)

section

variable {α : Type} {p : α → Bool} {stop : α}

theorem takeWhile_append_stop (h : p stop = false) (xs more : List α) :
    (xs ++ stop :: more).takeWhile p = xs.takeWhile p := by
  induction xs with
  | nil => rw [List.nil_append, List.takeWhile_cons, h]; rfl
  | cons x rest ih => rw [List.cons_append, List.takeWhile_cons, List.takeWhile_cons, ih]

theorem dropWhile_append_stop (h : p stop = false) (xs more : List α) :
    (xs ++ stop :: more).dropWhile p = xs.dropWhile p ++ stop :: more := by
  induction xs with
  | nil => rw [List.nil_append, List.dropWhile_cons, h]; rfl
  | cons x rest ih =>
    rw [List.cons_append, List.dropWhile_cons, List.dropWhile_cons, ih]
    split
    · rfl
    · rfl

theorem any_head?_append_stop (h : p stop = false) (xs more : List α) :
    (xs ++ stop :: more).head?.any p = xs.head?.any p := by
  cases xs with
  | nil => exact h
  | cons x rest => rfl

theorem head?_append_stop {x : α} (other : x ≠ stop) (xs more : List α) :
    (xs ++ stop :: more).head? = some x ↔ xs.head? = some x := by
  cases xs with
  | nil => simp [other.symm]
  | cons y rest => simp

end

namespace NumberScan

def append (n : NumberScan) (more : List Char) : NumberScan := ⟨n.chars, n.rest ++ more, n.fault?⟩

variable (more : List Char)

theorem digitRun_append_lineEnd {p : Char → Bool} (h : p '\n' = false) (cs : List Char) :
    digitRun p (cs ++ '\n' :: more) = ((digitRun p cs).1, (digitRun p cs).2 ++ '\n' :: more) := by
  have stop : (p '\n' || '\n' == '_') = false := by rw [h]; rfl
  rw [digitRun, digitRun]
  dsimp only
  rw [takeWhile_append_stop (p := fun c => p c || c == '_') stop,
    dropWhile_append_stop (p := fun c => p c || c == '_') stop]

theorem finish_append_lineEnd (chars rest : List Char) :
    finish chars (rest ++ '\n' :: more) = (finish chars rest).append ('\n' :: more) := by
  have stop : isWordPart '\n' = false := by decide
  rw [finish, finish, any_head?_append_stop (by decide), takeWhile_append_stop stop,
    dropWhile_append_stop stop]
  split
  · rfl
  · rfl

theorem radix_append_lineEnd (first : Char) {rest : List Char} (some : rest ≠ []) :
    radix first (rest ++ '\n' :: more) = (radix first rest).append ('\n' :: more) := by
  obtain ⟨mark, digits, rfl⟩ := List.exists_cons_of_ne_nil some
  simp only [radix, List.cons_append, List.take_succ_cons, List.take_zero, List.drop_succ_cons,
    List.drop_zero, digitRun_append_lineEnd more (by decide : Escape.isHexDigit '\n' = false),
    finish_append_lineEnd]

theorem signs_append_lineEnd (rest : List Char) :
    signLength (rest ++ '\n' :: more) = signLength rest ∧
      (rest ++ '\n' :: more).take (signLength rest) = rest.take (signLength rest) ∧
      (rest ++ '\n' :: more).drop (signLength rest)
        = rest.drop (signLength rest) ++ '\n' :: more := by
  cases rest with
  | nil => exact ⟨rfl, rfl, rfl⟩
  | cons sign digits =>
    rw [signLength, signLength, List.cons_append, List.head?_cons, List.head?_cons]
    refine ⟨rfl, ?_, ?_⟩
    · split
      · rfl
      · rfl
    · split
      · rfl
      · rfl

theorem exponent_append_lineEnd (chars rest : List Char) :
    exponent chars (rest ++ '\n' :: more) = (exponent chars rest).append ('\n' :: more) := by
  obtain ⟨signs, front, back⟩ := signs_append_lineEnd more rest
  rw [exponent, exponent]
  dsimp only
  rw [signs, front, back, any_head?_append_stop (by decide), digitRun_append_lineEnd more (by decide)]
  split
  · exact finish_append_lineEnd more _ _
  · rfl

theorem fraction_append_lineEnd (after : List Char) :
    ((after ++ '\n' :: more).head? = some '.' ∧
      ((after ++ '\n' :: more).drop 1).head?.any isDigit = true) ↔
    (after.head? = some '.' ∧ (after.drop 1).head?.any isDigit = true) := by
  cases after with
  | nil => simp
  | cons point digits =>
    rw [List.cons_append, List.drop_succ_cons, List.drop_zero, List.drop_succ_cons, List.drop_zero,
      any_head?_append_stop (by decide), List.head?_cons, List.head?_cons]

theorem mantissa_append_lineEnd (first : Char) (rest : List Char) :
    mantissa first (rest ++ '\n' :: more)
      = ((mantissa first rest).1, (mantissa first rest).2 ++ '\n' :: more) := by
  have run := digitRun_append_lineEnd more (by decide : isDigit '\n' = false)
  rw [mantissa, mantissa]
  split
  · rw [run]
  · rw [run]
    simp only [fraction_append_lineEnd]
    split
    next fraction =>
      obtain ⟨digits, is⟩ := List.head?_eq_some_iff.1 fraction.1
      simp only [is, List.cons_append, List.drop_succ_cons, List.drop_zero, run]
    · rfl

theorem read_append_lineEnd (first : Char) (rest : List Char) :
    read first (rest ++ '\n' :: more) = (read first rest).append ('\n' :: more) := by
  rw [read, read, any_head?_append_stop (by decide), mantissa_append_lineEnd]
  split
  next mark =>
    refine radix_append_lineEnd more first fun none => ?_
    rw [none] at mark
    cases mark.2
  · dsimp only
    cases left : (mantissa first rest).2 with
    | nil =>
      rw [List.nil_append]
      exact finish_append_lineEnd more _ []
    | cons mark tail =>
      rw [List.cons_append]
      dsimp only
      split
      · exact exponent_append_lineEnd more _ tail
      · exact finish_append_lineEnd more _ (mark :: tail)

end NumberScan

theorem skipComment_append {pos next : Nat} {cs after : List Char} (more : List Char)
    (h : skipComment pos cs = some (next, after)) :
    skipComment pos (cs ++ more) = some (next, after ++ more) := by
  induction cs generalizing pos with
  | nil => cases h
  | cons c rest ih =>
    rw [skipComment] at h
    rw [List.cons_append, skipComment]
    split at h
    next close =>
      obtain ⟨rfl, slash⟩ := close
      obtain ⟨left, rfl⟩ := List.head?_eq_some_iff.1 slash
      obtain ⟨rfl, rfl⟩ := Prod.mk.inj (Option.some.inj h)
      rfl
    next noClose =>
      have some : rest ≠ [] := by
        rintro rfl
        cases h
      obtain ⟨second, left, rfl⟩ := List.exists_cons_of_ne_nil some
      rw [List.head?_cons] at noClose
      rw [List.cons_append, List.head?_cons, if_neg noClose]
      exact ih h

theorem splitHole_append {quote : Option Char} {depth : Nat} {cs inner after : List Char}
    (more : List Char) (h : splitHole quote depth cs = some (inner, after)) :
    splitHole quote depth (cs ++ more) = some (inner, after ++ more) := by
  fun_induction splitHole quote depth cs generalizing inner after with
  | case1 => cases h
  | case2 => cases h
  | case3 depth q e rest ih =>
    obtain ⟨⟨front, left⟩, found, same⟩ := Option.map_eq_some_iff.1 h
    obtain ⟨rfl, rfl⟩ := Prod.mk.inj same
    rw [List.cons_append, List.cons_append, splitHole.eq_def]
    simp only [↓reduceIte, ih found, Option.map_some]
  | case4 depth c rest q plain ih =>
    obtain ⟨⟨front, left⟩, found, same⟩ := Option.map_eq_some_iff.1 h
    obtain ⟨rfl, rfl⟩ := Prod.mk.inj same
    rw [List.cons_append, splitHole.eq_def]
    simp only [plain, ↓reduceIte, ih found, Option.map_some]
  | case5 depth c rest close =>
    obtain ⟨rfl, rfl⟩ := Prod.mk.inj (Option.some.inj h)
    rw [List.cons_append, splitHole.eq_def]
    simp only [close, and_self, ↓reduceIte]
  | case6 depth c rest noClose _ =>
    rename_i ih
    obtain ⟨⟨front, left⟩, found, same⟩ := Option.map_eq_some_iff.1 h
    obtain ⟨rfl, rfl⟩ := Prod.mk.inj same
    have onwards := ih found
    rw [List.cons_append, splitHole.eq_def]
    simp only [noClose, ↓reduceIte]
    exact congrArg (Option.map fun parts => (c :: parts.1, parts.2)) onwards

def StringScan.append (s : StringScan) (more : List Char) : StringScan :=
  ⟨s.text, s.pos, s.rest ++ more⟩

def TemplateScan.append (t : TemplateScan) (more : List Char) : TemplateScan :=
  ⟨t.head, t.holes, t.pos, t.rest ++ more⟩

theorem scanString_append {start : Nat} {quote : Char} {pos : Nat} {cs : List Char}
    (clean : (scanString start quote pos cs).Clean) (more : List Char) :
    scanString start quote pos (cs ++ more) = (scanString start quote pos cs).append more := by
  refine scanString_clean_induction (motive := fun pos cs =>
    scanString start quote pos (cs ++ more) = (scanString start quote pos cs).append more)
    ?close ?escape ?mark ?char clean
  case close =>
    intro pos rest
    rw [List.cons_append, scanString_close, scanString_close]
    rfl
  case escape =>
    intro pos e taken after out other rewrites later ih
    have some : after ≠ [] := by
      rintro rfl
      exact scanString_nil_not_clean later
    rw [List.cons_append, List.cons_append, List.append_assoc,
      scanString_rewrites other (rewrites.append more some), scanString_rewrites other rewrites, ih]
    rfl
  case mark =>
    intro pos rest other ih
    rw [List.cons_append, scanString_mark _ _ _ other, scanString_mark _ _ _ other, ih]
    rfl
  case char =>
    intro pos c rest other plain unmarked inLine ih
    rw [List.cons_append, scanString_char _ _ _ other plain unmarked inLine,
      scanString_char _ _ _ other plain unmarked inLine, ih]
    rfl

theorem scanTemplate_append {start pos : Nat} {cs : List Char}
    (clean : (scanTemplate start pos cs).Clean) (more : List Char) :
    scanTemplate start pos (cs ++ more) = (scanTemplate start pos cs).append more := by
  refine scanTemplate_clean_induction (motive := fun pos cs =>
    scanTemplate start pos (cs ++ more) = (scanTemplate start pos cs).append more)
    ?close ?escape ?hole ?mark ?lineEnd ?char clean
  case close =>
    intro pos rest
    rw [List.cons_append, scanTemplate_close, scanTemplate_close]
    rfl
  case escape =>
    intro pos e taken after out rewrites later ih
    have some : after ≠ [] := by
      rintro rfl
      exact scanTemplate_nil_not_clean later
    rw [List.cons_append, List.cons_append, List.append_assoc,
      scanTemplate_rewrites (rewrites.append more some), scanTemplate_rewrites rewrites, ih]
    rfl
  case hole =>
    intro pos rest inner after closed ih
    rw [List.cons_append, List.cons_append, scanTemplate_hole _ _ _ closed,
      scanTemplate_hole _ _ _ (splitHole_append more closed), ih]
    rfl
  case mark =>
    intro pos rest ih
    rw [List.cons_append, scanTemplate_mark, scanTemplate_mark, ih]
    rfl
  case lineEnd =>
    intro pos rest ih
    rw [List.cons_append, scanTemplate_lineEnd, scanTemplate_lineEnd, ih]
    rfl
  case char =>
    intro pos c rest other plain closed unmarked inLine later ih
    have some : rest ≠ [] := by
      rintro rfl
      exact scanTemplate_nil_not_clean later
    have closedToo : ¬(c = '$' ∧ (rest ++ more).head? = .some '\x7b') := by
      obtain ⟨next, left, rfl⟩ := List.exists_cons_of_ne_nil some
      exact closed
    rw [List.cons_append, scanTemplate_char _ _ _ other plain closedToo unmarked inLine,
      scanTemplate_char _ _ _ other plain closed unmarked inLine, ih]
    rfl

namespace Scan

def append (s : Scan) (more : List Char) : Scan := ⟨s.lexeme, s.pos, s.rest ++ more⟩

variable {pos : Nat} {c : Char} {rest : List Char}

theorem blockComment_append (clean : (blockComment pos rest).lexeme.Clean) (more : List Char) :
    blockComment pos (rest ++ more) = (blockComment pos rest).append more := by
  rw [blockComment] at clean ⊢
  split at clean
  next next after found =>
    simp only [blockComment, skipComment_append more found, found]
    rfl
  · cases clean

theorem string_append (clean : (string pos c rest).lexeme.Clean) (more : List Char) :
    string pos c (rest ++ more) = (string pos c rest).append more := by
  have noFaults : (scanString pos c (pos + 1) rest).Clean := by
    rw [string] at clean
    dsimp only at clean
    split at clean
    next none => exact List.isEmpty_iff.1 none
    · cases clean
  rw [string, scanString_append noFaults]
  rfl

theorem template_append (clean : (template pos rest).lexeme.Clean) (more : List Char) :
    template pos (rest ++ more) = (template pos rest).append more := by
  rw [template, scanTemplate_append clean]
  rfl

theorem lineComment_append_lineEnd (more : List Char) :
    lineComment pos (rest ++ '\n' :: more) = (lineComment pos rest).append ('\n' :: more) := by
  rw [lineComment, takeWhile_append_stop (by decide), dropWhile_append_stop (by decide)]
  rfl

theorem number_append_lineEnd (more : List Char) :
    number pos c (rest ++ '\n' :: more) = (number pos c rest).append ('\n' :: more) := by
  rw [number, number, NumberScan.read_append_lineEnd]
  cases is : (NumberScan.read c rest).fault? with
  | none => simp only [NumberScan.append, is]; rfl
  | some fault => simp only [NumberScan.append, is]; rfl

theorem word_append_lineEnd (more : List Char) :
    word pos c (rest ++ '\n' :: more) = (word pos c rest).append ('\n' :: more) := by
  have stop : isWordPart '\n' = false := by decide
  rw [word, takeWhile_append_stop stop, dropWhile_append_stop stop]
  rfl

theorem symbol_append_lineEnd (clean : (symbol pos c rest).lexeme.Clean) (more : List Char) :
    symbol pos c (rest ++ '\n' :: more) = (symbol pos c rest).append ('\n' :: more) := by
  cases found : symbolAt? (c :: rest) with
  | none =>
    rw [symbol, found] at clean
    cases clean
  | some longest =>
    obtain ⟨kind, size⟩ := longest
    have fits := (symbolAt?_ascii found).1
    have foundToo := symbolAt?_append more found
    rw [List.cons_append] at foundToo
    rw [symbol, symbol, foundToo, found]
    dsimp only [append]
    rw [← List.cons_append, List.drop_append_of_le_length fits]

/-- How a lexeme is read does not depend on what follows the line end behind it. -/
theorem next_append_lineEnd (clean : (next pos c rest).lexeme.Clean) (more : List Char) :
    next pos c (rest ++ '\n' :: more) = (next pos c rest).append ('\n' :: more) := by
  rw [next] at clean
  rw [next, next]
  simp only [head?_append_stop (by decide : '/' ≠ '\n'), head?_append_stop (by decide : '*' ≠ '\n'),
    any_head?_append_stop (by decide : isDigit '\n' = false)]
  split_ifs at clean ⊢ with blank inLine inBlock quote backtick digit start
  · rfl
  · exact lineComment_append_lineEnd more
  · obtain ⟨inside, rfl⟩ := List.head?_eq_some_iff.1 inBlock.2
    exact blockComment_append clean ('\n' :: more)
  · exact string_append clean ('\n' :: more)
  · exact template_append clean ('\n' :: more)
  · exact number_append_lineEnd more
  · exact word_append_lineEnd more
  · exact symbol_append_lineEnd clean more

end Scan

theorem tokens_ne_nil (pos : Nat) (cs : List Char) : (lexFrom pos cs).tokens ≠ [] := by
  induction pos, cs using lexFrom_induction with
  | nil pos => rw [lexFrom_nil]; exact List.cons_ne_nil _ _
  | cons pos c rest tail inside =>
    rw [lexFrom_cons]
    exact fun none => tail (List.append_eq_nil_iff.1 none).2

/-- Where nothing is wrong with a text, what stands on the next lines is cut up on its own. -/
theorem lexFrom_append_lineEnd {pos : Nat} {cs : List Char}
    (clean : (lexFrom pos cs).errors = []) (more : List Char) :
    lexFrom pos (cs ++ '\n' :: more) =
      let tail := lexFrom (pos + Text.byteLength cs + 1) more
      ⟨(lexFrom pos cs).tokens.dropLast ++ tail.tokens, tail.errors⟩ := by
  induction pos, cs using lexFrom_induction with
  | nil pos =>
    have blank : Scan.next pos '\n' more = ⟨.skipped, pos + 1, more⟩ := by simp [Scan.next]
    rw [List.nil_append, lexFrom_cons, lexFrom_nil, blank]
    rfl
  | cons pos c rest tail inside =>
    obtain ⟨here, later, -⟩ := clean_of_lexFrom clean
    obtain ⟨taken, -, whole, ends, -⟩ := Scan.next_takes here
    have noErrors : (Scan.next pos c rest).lexeme.errors = [] := by
      rw [lexFrom_cons] at clean
      exact (List.append_eq_nil_iff.1 clean).1
    have stop : (Scan.next pos c rest).pos + Text.byteLength (Scan.next pos c rest).rest + 1
        = pos + Text.byteLength (c :: rest) + 1 := by
      rw [whole, Text.byteLength_append, ends, Nat.add_assoc pos]
    rw [List.cons_append, lexFrom_cons, lexFrom_cons pos c rest, Scan.next_append_lineEnd here]
    dsimp only [Scan.append]
    rw [tail later, stop, noErrors, List.dropLast_append_of_ne_nil (tokens_ne_nil _ _)]
    dsimp only
    rw [List.append_assoc, List.nil_append]

/-- Text that follows the line end behind a text without faults is cut up on its own, and only the
offsets in it depend on what is in front. -/
theorem tokenize_append_lineEnd {source : String} {plain : List Token}
    (h : tokenize source 0 = .ok plain) (more : String) (base : Nat) :
    tokenize (source ++ "\n" ++ more) base = match tokenize more 0 with
      | .ok tokens => .ok (plain.dropLast.map (Token.shift base) ++
          tokens.map (Token.shift (base + source.utf8ByteSize + 1)))
      | .error errors =>
        .error (errors.map (SyntaxError.shift (base + source.utf8ByteSize + 1))) := by
  obtain ⟨clean, rfl⟩ := tokenize_eq_ok_iff.1 h
  have shifted := lexFrom_shift base 0 source.toList
  rw [Nat.zero_add] at shifted
  have cleanToo : (lexFrom base source.toList).errors = [] := by
    rw [shifted, Lexed.shift, clean]
    rfl
  have text : (source ++ "\n" ++ more).toList = source.toList ++ '\n' :: more.toList := by
    simp
  have moved := lexFrom_shift (base + source.utf8ByteSize + 1) 0 more.toList
  rw [Nat.zero_add] at moved
  have whole := lexFrom_append_lineEnd cleanToo more.toList
  rw [Text.byteLength_toList, moved] at whole
  rw [tokenize, text, whole, shifted, tokenize]
  cases is : (lexFrom 0 more.toList).errors with
  | nil => simp [Lexed.shift, is, List.map_dropLast]
  | cons error errors => simp [Lexed.shift, is]

/-- A symbol that could go on, and a template, in front of a symbol and of a comment
that is not closed. -/
theorem second_line_alone :
    (∃ plain, tokenize "\x60$\x7ba\x7d\x60<" 0 = .ok plain) ∧
      tokenize ("\x60$\x7ba\x7d\x60<" ++ "\n" ++ "=b") 5 = .ok
        [.mk (.template "" [.mk [.mk (.ident "a") ⟨8, 9⟩, .mk .eof ⟨9, 9⟩] ⟨8, 9⟩ ""]) ⟨5, 11⟩,
          .mk (.operator .less) ⟨11, 12⟩, .mk (.operator .assign) ⟨13, 14⟩,
          .mk (.ident "b") ⟨14, 15⟩, .mk .eof ⟨15, 15⟩] ∧
      tokenize ("\x60$\x7ba\x7d\x60<" ++ "\n" ++ "=b/*") 5
        = .error [⟨.unterminatedComment, ⟨15, 17⟩⟩] := by
  have h : tokenize "\x60$\x7ba\x7d\x60<" 0 = .ok
      [.mk (.template "" [.mk [.mk (.ident "a") ⟨3, 4⟩, .mk .eof ⟨4, 4⟩] ⟨3, 4⟩ ""]) ⟨0, 6⟩,
        .mk (.operator .less) ⟨6, 7⟩, .mk .eof ⟨7, 7⟩] := by cbv
  refine ⟨⟨_, h⟩, ?_, ?_⟩
  · exact (tokenize_append_lineEnd h "=b" 5).trans (by cbv)
  · exact (tokenize_append_lineEnd h "=b/*" 5).trans (by cbv)

end ScriptToGo
